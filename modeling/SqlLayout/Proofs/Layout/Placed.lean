import SqlLayout.Proofs.Layout.Course
import SqlLayout.Proofs.Layout.Hand

/-!
# The walk places pieces

Between two pieces the cursor of the walk stands where the lead of the hand says (`Stands`).  The
walk comes to the next token (`exists_arrived`), makes the move of that token (`exists_visited`) or
passes over a delimiter (`exists_skipped`), and so ends with the pieces that the hand places
(`exists_breakLines`).  On the way, whenever the walk has some of the tokens behind it, it stands on
the footing of the hand behind their pieces (`exists_behind?`).
-/

namespace SqlLayout.Layout

/-- Pieces as the walk gets them: gaps away from symbols and comments, line comments that end their
line, and delimiters that are symbols. -/
structure Neat (s : Style) (ps : List Piece) : Prop where
  visible : ∀ p ∈ ps, p.token.isSpace = false
  solid : ∀ p ∈ ps, Text.allBlank p.token.text = false
  blank : ∀ p ∈ ps, Text.allBlank p.gap = true
  tight : ∀ p ∈ ps, absorbsSpace p.token = true → p.gap = []
  behind : ps.IsChain fun p q => absorbsSpace p.token = true → q.gap = []
  lines : ps.IsChain fun p _ => isLineComment p.token = true → Text.endsWith p.token.text '\n' = true
  marks : ∀ p ∈ ps, s.isDelimiter p.token.text = true → p.token.kind = .symbol

namespace Neat

variable {s : Style} {p : Piece} {ps : List Piece}

theorem tail (h : Neat s (p :: ps)) : Neat s ps where
  visible := fun x hx => h.visible x (by simp [hx])
  solid := fun x hx => h.solid x (by simp [hx])
  blank := fun x hx => h.blank x (by simp [hx])
  tight := fun x hx => h.tight x (by simp [hx])
  behind := h.behind.tail
  lines := h.lines.tail
  marks := fun x hx => h.marks x (by simp [hx])

theorem right_of_append {ps qs : List Piece} (h : Neat s (ps ++ qs)) : Neat s qs := by
  induction ps with
  | nil => exact h
  | cons p ps ih => exact ih h.tail

theorem kind_ne_comment (h : Neat s (p :: ps)) (hgap : p.gap ≠ []) : p.token.kind ≠ .comment := by
  intro hkind
  exact hgap (h.tight p (by simp) (by simp [absorbsSpace, hkind]))

/-- Nothing is in front of the piece behind a symbol or a comment. -/
theorem gap_head? (h : Neat s (p :: ps)) (hp : absorbsSpace p.token = true) :
    ∀ q ∈ ps.head?, q.gap = [] :=
  fun q hq => (List.isChain_cons.mp h.behind).1 q hq hp

/-- A line comment that something follows is closed. -/
theorem isOpenComment_eq_false (h : Neat s (p :: ps)) (hps : ps ≠ []) :
    isOpenComment p.token = false := by
  obtain ⟨q, qs, rfl⟩ := List.exists_cons_of_ne_nil hps
  exact isOpenComment_eq_false_of_ends (List.isChain_cons_cons.mp h.lines).1

end Neat

/-- Pieces are neat when the tokens that write them are. -/
theorem Writes.neat {s : Style} {ps : List Piece} {ns : List Token} (h : Writes ps ns)
    (hapart : ns.IsChain Apart) (hlines : EndsComments ns) (hgaps : Gaps ns)
    (hmarks : ∀ t ∈ ns, s.isDelimiter t.text = true → t.kind = .symbol) : Neat s ps := by
  induction h with
  | nil => constructor <;> simp
  | @cons p ps gs ts gap visible solid rest ih =>
    have htail : (p.token :: ts).IsChain Apart := hapart.right_of_append
    have hends : EndsComments (p.token :: ts) := List.IsChain.right_of_append hlines
    have hneat := ih htail.tail (List.IsChain.tail hends) (fun t ht => hgaps t (by simp [ht]))
      (fun t ht => hmarks t (by simp [ht]))
    have hgap : Text.allBlank p.gap = true := by
      rcases gap with ⟨hgap, -⟩ | ⟨-, g, hg, htext, rfl⟩
      · rw [hgap]
        rfl
      · rw [← htext]
        exact (hgaps g (by simp) hg).2
    have htight : absorbsSpace p.token = true → p.gap = [] := by
      intro habsorbs
      rcases gap with ⟨hgap, -⟩ | ⟨-, g, hg, -, rfl⟩
      · exact hgap
      · have hword := ((List.isChain_cons_cons.mp hapart).1.1 hg).2
        rw [habsorbs] at hword
        cases hword
    refine ⟨List.forall_mem_cons.mpr ⟨visible, hneat.visible⟩,
      List.forall_mem_cons.mpr ⟨solid, hneat.solid⟩, List.forall_mem_cons.mpr ⟨hgap, hneat.blank⟩,
      List.forall_mem_cons.mpr ⟨htight, hneat.tight⟩, ?_, ?_,
      List.forall_mem_cons.mpr ⟨hmarks p.token (by simp), hneat.marks⟩⟩
    · refine List.isChain_cons.mpr ⟨?_, hneat.behind⟩
      intro q hq habsorbs
      cases rest with
      | nil => simp at hq
      | @cons q' qs gs' ts' gap' visible' solid' rest' =>
        obtain rfl : q' = q := by simpa using hq
        rcases gap' with ⟨hgap', -⟩ | ⟨-, g, hg, -, rfl⟩
        · exact hgap'
        · have hword := (List.isChain_cons_cons.mp htail).1.2 hg
          rw [habsorbs] at hword
          cases hword
    · refine List.isChain_cons.mpr ⟨?_, hneat.lines⟩
      intro q hq hline
      refine (endsComments_cons.mp hends).1 (rest.ne_nil ?_) hline
      rintro rfl
      simp at hq

/-! ## Where the cursor stands -/

/-- `Stands s h c front ps`: with `front` behind it, nearest first, and the pieces `ps` to come, the
walk that carries `h` has its cursor at `c`. -/
inductive Stands (s : Style) (h : Hand) : Cursor → List Token → List Piece → Prop
  | done (front : List Token) : Stands s h ⟨front, []⟩ front []
  | flow {front ns : List Token} {ps : List Piece} (lead : h.lead = .flow) (writes : Writes ps ns)
      (closed : ∀ p ∈ front.head?, p.isSpace = false ∧ isOpenComment p = false) :
      Stands s h ⟨front, ns⟩ front ps
  | comment {front ns : List Token} {ps : List Piece} {c : Token} (lead : h.lead = .comment)
      (writes : Writes ps ns) (opened : front.head? = some c) (isOpen : isOpenComment c = true)
      (tight : ∀ p ∈ ps.head?, p.gap = []) : Stands s h ⟨front, ns⟩ front ps
  | line {front rest gs : List Token} {p : Piece} {ps : List Piece} {level : Int}
      (lead : h.lead = .line level) (other : s.isDelimiter p.token.text = false)
      (gap : Fills (breakText (s.lineBreak level) p.token) gs) (tight : p.gap = [])
      (behind : Writes ps rest) :
      Stands s h ⟨gs ++ front, settle p.token :: rest⟩ front (p :: ps)
  | spaced {front rest : List Token} {g : Token} {p : Piece} {ps : List Piece} {level : Int}
      (lead : h.lead = .line level) (space : g.isSpace = true) (text : g.text = s.lineBreak level)
      (apart : p.gap ≠ []) (behind : Writes ps rest) :
      Stands s h ⟨front, g :: p.token :: rest⟩ front (p :: ps)
  | skipped {front rest : List Token} {p : Piece} {ps : List Piece} {level : Int} (offset : Nat)
      (lead : h.lead = .line level) (delimiter : s.isDelimiter p.token.text = true)
      (behind : Writes ps rest) :
      Stands s h ⟨p.token :: front, afterDelimiter (s.lineBreak level) offset rest⟩ front (p :: ps)
  | parted {front rest gs : List Token} {p : Piece} {ps : List Piece} {level : Int}
      (lead : h.lead = .parted level) (gap : Fills (s.lineBreak level ++ s.lineBreak level) gs)
      (tight : p.gap = []) (behind : Writes ps rest) :
      Stands s h ⟨gs ++ front, p.token :: rest⟩ front (p :: ps)

/-- The walk carries `h` with `front` behind it and the pieces `ps` to come. -/
structure Carries (s : Style) (h : Hand) (w : Walk) (front : List Token) (ps : List Piece) :
    Prop where
  stands : Stands s h w.cursor front ps
  footing : w.footing = h.footing
  previous : ∀ p ∈ ps.head?, p.gap = [] → w.previous = h.previous
  last : front.head? = h.last
  visible : ∀ t ∈ front.head?, t.isSpace = false
  outside : ps ≠ [] → h.lead ≠ .flow → h.footing.inCall = false
  first : front = [] → h.lead = .flow ∧ ∀ p ∈ ps.head?, p.gap = []

section Steps

variable {d : Dialect} {s : Style} {h : Hand} {w : Walk} {front : List Token} {p : Piece}
  {ps : List Piece}

theorem lineBreak_ne_nil (s : Style) (level : Int) : s.lineBreak level ≠ [] :=
  (isGap_lineBreak s level).1

/-! ## What is behind the cursor -/

theorem length_visible_append_of_fills {g : Text} {gs : List Token} (hgs : Fills g gs) (ts : List Token) :
    (Token.visible (gs ++ ts)).length = (Token.visible ts).length := by
  rw [visible_append, visible_of_forall_isSpace hgs.isSpace, List.nil_append]

theorem length_visible_cons {t : Token} (ht : t.isSpace = false) (ts : List Token) :
    (Token.visible (t :: ts)).length = (Token.visible ts).length + 1 := by
  simp [Token.visible, ht]

/-- The cursor has passed at least the tokens that the hand has behind it. -/
theorem Stands.length_visible_le {c : Cursor} (h' : Stands s h c front ps) :
    (Token.visible front).length ≤ (Token.visible c.before).length := by
  cases h' with
  | done | flow | comment | spaced => exact Nat.le_refl _
  | line lead other gap tight behind => exact Nat.le_of_eq (length_visible_append_of_fills gap _).symm
  | @skipped front rest p ps level offset lead delimiter behind =>
    exact ((List.sublist_cons_self p.token front).filter _).length_le
  | parted lead gap tight behind => exact Nat.le_of_eq (length_visible_append_of_fills gap _).symm

/-! ## Coming to a token -/

/-- The walk has come to a token: it stands at the token as shown, with the gap in front of it. -/
structure Arrived (d : Dialect) (s : Style) (h : Hand) (w : Walk) (front : List Token) (p : Piece)
    (w' : Walk) (gs rest : List Token) : Prop where
  leads : w.Leads d s (Token.visible front).length w'
  passed : w'.passed = (Token.visible front).length
  cursor : (w'.closeLineComment s).cursor = ⟨gs ++ front, h.shown p.token :: rest⟩
  gap : Fills (h.gapBefore s p.gap p.token) gs
  footing : (w'.closeLineComment s).footing = h.footing
  previous : p.gap = [] → (w'.closeLineComment s).previous = h.previous

/-- A walk in front of which no comment is open stands still. -/
theorem Arrived.of_closed {gs rest : List Token} (hcursor : w.cursor = ⟨gs ++ front, h.shown p.token :: rest⟩)
    (hclosed : ∀ t ∈ (gs ++ front).head?, isOpenComment t = false)
    (hgap : Fills (h.gapBefore s p.gap p.token) gs) (hfooting : w.footing = h.footing)
    (hprevious : p.gap = [] → w.previous = h.previous) : Arrived d s h w front p w gs rest := by
  have hstill := closeLineComment_of_closed (s := s) hcursor hclosed
  refine ⟨.refl _ w, ?_, ?_, hgap, ?_, ?_⟩
  · rw [Walk.passed, hcursor]
    exact length_visible_append_of_fills hgap front
  all_goals rwa [hstill]

/-- The walk passes the white space in front of a token. -/
theorem Arrived.of_space (hmark : IsMark s) {g : Token} {rest : List Token} (hg : g.isSpace = true)
    (hblank : Text.allBlank g.text = true) (hcursor : w.cursor = ⟨front, g :: h.shown p.token :: rest⟩)
    (hgap : Fills (h.gapBefore s p.gap p.token) [g]) (hfooting : w.footing = h.footing)
    (hapart : p.gap ≠ []) : ∃ w', Arrived d s h w front p w' [g] rest := by
  have hvisit := visit_space (d := d) hmark hcursor hg hblank
  have hstill := closeLineComment_of_closed (s := s)
    (w := { w with cursor := ⟨g :: front, h.shown p.token :: rest⟩, previous := g.text }) rfl
    (by simpa using isOpenComment_of_isSpace hg)
  have hpassed : w.passed = (Token.visible front).length := by rw [Walk.passed, hcursor]
  refine ⟨_, .of_visit hvisit (Nat.le_of_eq hpassed), ?_, ?_, hgap, ?_, ?_⟩
  · exact length_visible_append_of_fills hgap front
  · rw [hstill]
    rfl
  · rw [hstill]
    exact hfooting
  · exact fun htight => absurd htight hapart

/-- The walk behind an open comment breaks the line in front of a token. -/
theorem exists_arrived_comment (hmark : IsMark s) {c : Token} {rest : List Token}
    (hneat : Neat s (p :: ps)) (hlead : h.lead = .comment) (hcall : h.footing.inCall = false)
    (hfront : front.head? = some c) (hopen : isOpenComment c = true) (htight : p.gap = [])
    (hcursor : w.cursor = ⟨front, p.token :: rest⟩) (hfooting : w.footing = h.footing)
    (hprevious : w.previous = h.previous) : ∃ gs, Arrived d s h w front p w gs rest := by
  obtain ⟨before, rfl⟩ : ∃ before, front = c :: before := List.head?_eq_some_iff.mp hfront
  have hpassed : w.passed = (Token.visible (c :: before)).length := by rw [Walk.passed, hcursor]
  have hvisible := hneat.visible p (by simp)
  cases hdelimiter : s.isDelimiter p.token.text with
  | true =>
    have hkind := hneat.marks p (by simp) hdelimiter
    have hshown : h.shown p.token = p.token := by
      simp [Hand.shown, hlead, settle_of_kind_ne, hkind]
    have hstill : w.closeLineComment s = w := by
      simp [Walk.closeLineComment, followsOpenLineComment_eq hcursor, hdelimiter]
    refine ⟨[], .refl _ w, hpassed, ?_, ?_, ?_, fun _ => ?_⟩
    · rw [hstill, hcursor, hshown]
      rfl
    · simp [Hand.gapBefore, hlead, hdelimiter, htight, Fills]
    · rwa [hstill]
    · rwa [hstill]
  | false =>
    have hcall' : w.inCall = false := by rw [← Walk.inCall_footing, hfooting, hcall]
    have hclose := closeLineComment_of_open hcursor hopen hcall' hvisible hdelimiter
      ((isDelimiter_settle hmark p.token).trans hdelimiter)
    have hlevel : w.level = h.footing.level := by rw [← hfooting]; rfl
    have hshown : h.shown p.token = settle p.token := by simp [Hand.shown, hlead]
    have hgap : h.gapBefore s p.gap p.token = breakText (s.lineBreak w.level) p.token := by
      simp [Hand.gapBefore, hlead, hdelimiter, hlevel]
    refine ⟨[Token.space (breakText (s.lineBreak w.level) p.token) (settle p.token).offset], .refl _ w,
      hpassed, ?_, ?_, ?_, fun _ => ?_⟩
    · rw [hclose, hshown]
      rfl
    · rw [hgap]
      exact .space (isGap_breakText (isGap_lineBreak s _) _).1 _
    · rw [hclose]
      exact hfooting
    · rw [hclose]
      exact hprevious

/-- The walk comes to the next token of its line. -/
theorem exists_arrived_flow (hmark : IsMark s) (hneat : Neat s (p :: ps)) (hlead : h.lead = .flow)
    {ns : List Token} (hwrites : Writes (p :: ps) ns)
    (hclosed : ∀ t ∈ front.head?, isOpenComment t = false) (hcursor : w.cursor = ⟨front, ns⟩)
    (hfooting : w.footing = h.footing) (hprevious : p.gap = [] → w.previous = h.previous) :
    ∃ w' gs rest, Writes ps rest ∧ Arrived d s h w front p w' gs rest := by
  have hshown : h.shown p.token = p.token := by simp [Hand.shown, hlead]
  have hgapBefore : h.gapBefore s p.gap p.token = p.gap := by simp [Hand.gapBefore, hlead]
  cases hwrites with
  | @cons _ _ gs rest gap visible solid behind =>
    by_cases htight : p.gap = []
    · rw [htight] at gap
      obtain rfl := gap.eq_nil
      refine ⟨w, [], rest, behind, .of_closed ?_ hclosed ?_ hfooting hprevious⟩
      · rw [hcursor, hshown]
        rfl
      · rw [hgapBefore, htight]
        exact .nil
    · obtain ⟨g, hg, htext, rfl⟩ := gap.exists_single htight
      have hblank : Text.allBlank g.text = true := by
        rw [htext]
        exact hneat.blank p (by simp)
      have hcursor' : w.cursor = ⟨front, g :: h.shown p.token :: rest⟩ := by
        rw [hcursor, hshown]
        rfl
      obtain ⟨w', harrived⟩ := Arrived.of_space (d := d) hmark hg hblank hcursor'
        (by rw [hgapBefore]; exact gap) hfooting htight
      exact ⟨w', [g], rest, behind, harrived⟩

/-- The walk comes to a token through the white space that broke the line in front of it. -/
theorem exists_arrived_spaced (hmark : IsMark s) (hneat : Neat s (p :: ps)) {level : Int}
    (hlead : h.lead = .line level) {g : Token} {rest : List Token} (hg : g.isSpace = true)
    (htext : g.text = s.lineBreak level) (hapart : p.gap ≠ [])
    (hcursor : w.cursor = ⟨front, g :: p.token :: rest⟩) (hfooting : w.footing = h.footing) :
    ∃ w', Arrived d s h w front p w' [g] rest := by
  have hkind := hneat.kind_ne_comment hapart
  have hshown : h.shown p.token = p.token := by simp [Hand.shown, hlead, settle_of_kind_ne hkind]
  have hblank : Text.allBlank g.text = true := by
    rw [htext]
    exact (isGap_lineBreak s level).2
  have hgap : Fills (h.gapBefore s p.gap p.token) [g] := by
    simp only [Hand.gapBefore, hlead, breakText_of_kind_ne hkind, ← htext]
    exact .single hg (by rw [htext]; exact lineBreak_ne_nil s level)
  exact Arrived.of_space hmark hg hblank (by rw [hcursor, hshown]) hgap hfooting hapart

/-- No comment is open behind white space. -/
theorem Fills.isOpenComment_eq_false {g : Text} {gs : List Token} (hgs : Fills g gs) (hg : g ≠ []) :
    ∀ t ∈ (gs ++ front).head?, isOpenComment t = false := by
  obtain ⟨t, ht, -, rfl⟩ := hgs.exists_single hg
  simpa using isOpenComment_of_isSpace ht

/-- The walk comes to the next token, unless it has passed over it already. -/
theorem exists_arrived (hmark : IsMark s) (hneat : Neat s (p :: ps))
    (hcarries : Carries s h w front (p :: ps)) (hpass : h.skips? s p.token = none) :
    ∃ w' gs rest, Writes ps rest ∧ Arrived d s h w front p w' gs rest := by
  have hprevious := hcarries.previous p (by simp)
  have hstands := hcarries.stands
  generalize hcursor : w.cursor = c at hstands
  generalize hps : p :: ps = qs at hstands
  cases hstands with
  | done => cases hps
  | flow lead writes hclosed =>
    subst hps
    exact exists_arrived_flow hmark hneat lead writes (fun t ht => (hclosed t ht).2) hcursor
      hcarries.footing hprevious
  | comment lead writes opened isOpen tight =>
    subst hps
    have htight := tight p (by simp)
    cases writes with
    | @cons _ _ gs rest gap visible solid behind =>
      rw [htight] at gap
      obtain rfl := gap.eq_nil
      obtain ⟨gs, harrived⟩ := exists_arrived_comment (d := d) hmark hneat lead
        (hcarries.outside (by simp) (by simp [lead])) opened isOpen htight hcursor hcarries.footing
        (hprevious htight)
      exact ⟨w, gs, rest, behind, harrived⟩
  | @line _ _ _ _ _ level lead other gap tight behind =>
    cases hps
    have hne := (isGap_breakText (isGap_lineBreak s level) p.token).1
    refine ⟨w, _, _, behind, .of_closed ?_ (gap.isOpenComment_eq_false hne) ?_ hcarries.footing hprevious⟩
    · simp [hcursor, Hand.shown, lead]
    · simpa [Hand.gapBefore, lead] using gap
  | @spaced _ _ g _ _ level lead space text apart behind =>
    cases hps
    obtain ⟨w', harrived⟩ := exists_arrived_spaced (d := d) hmark hneat lead space text apart hcursor
      hcarries.footing
    exact ⟨w', [g], _, behind, harrived⟩
  | skipped offset lead delimiter behind =>
    cases hps
    simp [Hand.skips?, lead, delimiter] at hpass
  | @parted _ _ _ _ _ level lead gap tight behind =>
    cases hps
    have hne := ((isGap_lineBreak s level).append (isGap_lineBreak s level)).1
    refine ⟨w, _, _, behind, .of_closed ?_ (gap.isOpenComment_eq_false hne) ?_ hcarries.footing hprevious⟩
    · simp [hcursor, Hand.shown, lead]
    · simpa [Hand.gapBefore, lead] using gap

/-! ## Making a move -/

/-- What the walk sees is what the hand says, as far as the move at the token asks for it. -/
theorem Arrived.moveOf_eq {w' : Walk} {gs rest : List Token} (h' : Arrived d s h w front p w' gs rest)
    (hneat : Neat s (p :: ps)) (hcarries : Carries s h w front (p :: ps)) (hbehind : Writes ps rest) :
    moveOf s ((w'.closeLineComment s).surroundings d) (h.shown p.token) h.footing =
      h.move d s (ps.map (·.token.text)) p.gap p.token := by
  have hgs : (gs.filter fun t => !t.isSpace) = [] := by simpa using h'.gap.isSpace
  have hshown : (h.shown p.token).isSpace = false := by
    rw [Hand.isSpace_shown]
    exact hneat.visible p (by simp)
  refine moveOf_congr _ ?_ ?_ ?_ ?_
  · intro hopen
    have hkind := kind_of_isSymbol hopen
    rw [Hand.kind_shown] at hkind
    have habsorbs : absorbsSpace p.token = true := by simp [absorbsSpace, hkind]
    simp only [Walk.surroundings, Hand.around, h'.previous (hneat.tight p (by simp) habsorbs)]
  · have hbefore : ((Walk.wordTexts (gs ++ front)).head?.any Walk.isJoinWord) =
        h.last.any fun t => Walk.isJoinWord t.text := by
      rw [← hcarries.last]
      cases front with
      | nil => simp [Walk.wordTexts, hgs]
      | cons t before =>
        have ht := hcarries.visible t (by simp)
        simp [Walk.wordTexts, List.filter_append, hgs, ht]
    have hafter : Walk.wordTexts (h.shown p.token :: rest) =
        (h.shown p.token).text :: ps.map (·.token.text) := by
      rw [← hbehind.wordTexts]
      simp [Walk.wordTexts, hshown]
    simp only [Walk.surroundings, Walk.atJoinStart, h'.cursor, hbefore, hafter, Hand.around,
      List.head?_cons, Option.any_some]
  · simp only [Walk.surroundings, h'.cursor, Hand.around]
    cases front with
    | nil =>
      obtain ⟨hlead, hgap⟩ := hcarries.first rfl
      have hfills := h'.gap
      simp only [Hand.gapBefore, hlead, hgap p (by simp)] at hfills
      simp [hfills.eq_nil, ← hcarries.last]
    | cons t before => simp [← hcarries.last]
  · simp only [Walk.surroundings, h'.cursor, Hand.around, ← hcarries.last]
    rcases h'.gap with ⟨hgap, rfl⟩ | ⟨hgap, g, hg, -, rfl⟩
    · simp [hgap]
    · have hkind : g.kind = .space := by simpa [Token.isSpace] using hg
      have hempty : (h.gapBefore s p.gap p.token).isEmpty = false := by simpa using hgap
      simp [hempty, hkind]

/-- A break in front of a token that is no comment takes the place of the gap there. -/
theorem exists_breakHere? {x : Token} (hx : x.isSpace = false) {here : Option Int}
    (hword : here.isSome = true → x.kind ≠ .comment) (hother : s.isDelimiter x.text = false)
    {g : Text} {gs : List Token} (hgs : Fills g gs) (hfront : ∀ t ∈ front.head?, t.isSpace = false)
    (hfirst : front = [] → g = []) (rest : List Token) :
    ∃ gs', (⟨gs ++ front, x :: rest⟩ : Cursor).breakHere? s here = ⟨gs' ++ front, x :: rest⟩ ∧
      Fills (if front.isEmpty then g else here.elim g s.lineBreak) gs' := by
  cases here with
  | none => exact ⟨gs, rfl, by simpa using hgs⟩
  | some level =>
    have hkind : x.kind ≠ .comment := hword rfl
    have hsettle : settle x = x := settle_of_kind_ne hkind
    have hline : breakText (s.lineBreak level) x = s.lineBreak level := breakText_of_kind_ne hkind
    cases front with
    | nil =>
      have hg := hfirst rfl
      rw [hg] at hgs
      obtain rfl := hgs.eq_nil
      exact ⟨[], by simp [Cursor.breakHere?, Cursor.breakHere, hx, hother], by simp [hg, Fills]⟩
    | cons t before =>
      rcases hgs with ⟨rfl, rfl⟩ | ⟨-, y, hy, -, rfl⟩
      · refine ⟨[Token.space (s.lineBreak level) x.offset], ?_, .space (lineBreak_ne_nil s level) _⟩
        have ht := hfront t (by simp)
        simp [Cursor.breakHere?, Cursor.breakHere, hsettle, hline, hx, hother, ht]
      · refine ⟨[y.withText (s.lineBreak level)], ?_, .withText hy (lineBreak_ne_nil s level)⟩
        simp [Cursor.breakHere?, Cursor.breakHere, hsettle, hline, hx, hother, hy]

/-- Where the cursor stands behind a token that ends its line. -/
theorem stands_breakNext (hmark : IsMark s) {x : Token} (hx : x.isSpace = false) {rest : List Token}
    (hneat : Neat s ps) (hwrites : Writes ps rest) (before : List Token) {level : Int}
    (hlead : h.lead = .line level) :
    Stands s h ((⟨before, x :: rest⟩ : Cursor).breakNext s (s.lineBreak level)).advance
      (x :: before) ps := by
  cases hwrites with
  | nil => exact .done _
  | @cons q qs gs ts gap visible solid behind =>
    by_cases htight : q.gap = []
    · rw [htight] at gap
      obtain rfl := gap.eq_nil
      simp only [List.nil_append, Cursor.breakNext, isSpace_settle, isDelimiter_settle hmark, hx,
        visible, Bool.false_eq_true, ↓reduceIte]
      cases hdelimiter : s.isDelimiter q.token.text with
      | true =>
        have hkind := hneat.marks q (by simp) hdelimiter
        have hline : breakText (s.lineBreak level) q.token = s.lineBreak level :=
          breakText_of_kind_ne (by simp [hkind])
        rw [hline, settle_of_kind_ne (by simp [hkind])]
        exact .skipped q.token.offset hlead hdelimiter behind
      | false =>
        have hgap := Fills.space (isGap_breakText (isGap_lineBreak s level) q.token).1
          (settle q.token).offset
        exact .line hlead hdelimiter hgap htight behind
    · obtain ⟨g, hg, -, rfl⟩ := gap.exists_single htight
      have hkind : g.kind = .space := by simpa [Token.isSpace] using hg
      have hline : breakText (s.lineBreak level) g = s.lineBreak level :=
        breakText_of_kind_ne (by simp [hkind])
      simp only [List.singleton_append, Cursor.breakNext, settle_of_isSpace hg, hg, ↓reduceIte, hline]
      exact .spaced (g := g.withText (s.lineBreak level)) hlead hg rfl htight behind

/-- Where the cursor stands behind a delimiter. -/
theorem stands_afterDelimiter {x : Token} {rest : List Token} (hwrites : Writes ps rest)
    (htight : ∀ q ∈ ps.head?, q.gap = []) (before : List Token) {level : Int} (offset : Nat)
    (hlead : h.lead = .parted level) :
    Stands s h (⟨x :: before, afterDelimiter (s.lineBreak level) offset rest⟩ : Cursor).advance
      (x :: before) ps := by
  cases hwrites with
  | nil => exact .done _
  | @cons q qs gs ts gap visible solid behind =>
    have hgap := htight q (by simp)
    rw [hgap] at gap
    obtain rfl := gap.eq_nil
    have hline : s.lineBreak level ++ s.lineBreak level ≠ [] :=
      ((isGap_lineBreak s level).append (isGap_lineBreak s level)).1
    exact .parted hlead (Fills.space hline offset) hgap behind

/-- A visit makes the move at its token. -/
theorem Arrived.visit_eq {w' : Walk} {gs rest : List Token} (h' : Arrived d s h w front p w' gs rest)
    (hneat : Neat s (p :: ps)) (hcarries : Carries s h w front (p :: ps)) (hbehind : Writes ps rest) :
    w'.visit d s = some (((w'.closeLineComment s).follow s
      (h.move d s (ps.map (·.token.text)) p.gap p.token)).leave (h.shown p.token).text) := by
  simp only [Walk.visit, h'.cursor, Walk.react_eq]
  rw [h'.footing, h'.moveOf_eq hneat hcarries hbehind]

theorem exists_visited_delimiter (hmark : IsMark s) (hneat : Neat s (p :: ps))
    (hcarries : Carries s h w front (p :: ps)) {w' : Walk} {gs rest : List Token}
    (h' : Arrived d s h w front p w' gs rest) (hbehind : Writes ps rest)
    (hdelimiter : s.isDelimiter p.token.text = true) :
    ∃ w'' gs', w'.visit d s = some w'' ∧
      Fills (h.visit d s (ps.map (·.token.text)) p.gap p.token).gap gs' ∧
      Carries s (h.visit d s (ps.map (·.token.text)) p.gap p.token).hand w''
        (h.shown p.token :: (gs' ++ front)) ps := by
  have hkind : (h.shown p.token).kind = .symbol := by
    rw [Hand.kind_shown]
    exact hneat.marks p (by simp) hdelimiter
  have hshown : s.isDelimiter (h.shown p.token).text = true := by
    rwa [Hand.isDelimiter_shown hmark]
  have hmove : h.move d s (ps.map (·.token.text)) p.gap p.token =
      ⟨h.footing.breakAt 0, none, { h.footing with level := 0 }⟩ :=
    moveOf_delimiter hmark _ _ hkind hshown
  have hvisible : (h.shown p.token).isSpace = false := by simp [Token.isSpace, hkind]
  refine ⟨_, gs, h'.visit_eq hneat hcarries hbehind, ?_, ?_, rfl, fun _ _ _ => rfl, rfl, ?_, ?_, ?_⟩
  · simp only [Hand.visit, Hand.gapAfter, hshown, Bool.true_or, ↓reduceIte]
    exact h'.gap
  · simp only [Walk.leave, Walk.follow, h'.cursor, hmove, Cursor.breakBehind?, Footing.breakAt]
    cases hcall : h.footing.inCall with
    | true =>
      refine .flow ?_ hbehind ?_
      · simp [Hand.visit, Hand.leadBehind, hshown, hmove, Footing.breakAt, hcall]
      · simp [hvisible, isOpenComment, isLineComment, hkind]
    | false =>
      simp only [Bool.false_eq_true, ↓reduceIte, Cursor.breakHere?]
      rw [breakHere_delimiter hkind hshown]
      refine stands_afterDelimiter hbehind ?_ _ _ ?_
      · refine hneat.gap_head? ?_
        rw [Hand.kind_shown] at hkind
        simp [absorbsSpace, hkind]
      · simp [Hand.visit, Hand.leadBehind, hshown, hmove, Footing.breakAt, hcall]
  · simpa using hvisible
  · intro _ hlead
    simp only [Hand.visit, Hand.leadBehind, hshown, hmove, Footing.breakAt, ↓reduceIte] at hlead ⊢
    cases hcall : h.footing.inCall with
    | true => simp [hcall] at hlead
    | false => exact hcall
  · simp

/-- An open comment that something follows was settled, outside function calls. -/
theorem inCall_of_openComment (hneat : Neat s (p :: ps)) (hcarries : Carries s h w front (p :: ps))
    (hps : ps ≠ []) (hopen : isOpenComment (h.shown p.token) = true) :
    h.footing.inCall = false := by
  refine hcarries.outside (by simp) ?_
  intro hlead
  have hshown : h.shown p.token = p.token := by simp [Hand.shown, hlead]
  rw [hshown, hneat.isOpenComment_eq_false hps] at hopen
  cases hopen

/-- What leads to the token behind one that is no delimiter. -/
theorem lead_visit (hother : s.isDelimiter (h.shown p.token).text = false) (rest : List Text) :
    (h.visit d s rest p.gap p.token).hand.lead = (h.move d s rest p.gap p.token).next.elim
      (if isOpenComment (h.shown p.token) then .comment else .flow) .line := by
  simp [Hand.visit, Hand.leadBehind, hother]

/-- Behind a token that is no delimiter the line goes on unless a break or an open comment ends it. -/
theorem stands_visited (hmark : IsMark s) (hneat : Neat s (p :: ps)) {rest : List Token}
    (hbehind : Writes ps rest) (hvisible : (h.shown p.token).isSpace = false)
    (hother : s.isDelimiter (h.shown p.token).text = false) (texts : List Text) (before : List Token) :
    Stands s (h.visit d s texts p.gap p.token).hand
      ((⟨before, h.shown p.token :: rest⟩ : Cursor).breakBehind? s
        (h.move d s texts p.gap p.token).next).advance (h.shown p.token :: before) ps := by
  have hlead := lead_visit (d := d) hother texts
  cases hnext : (h.move d s texts p.gap p.token).next with
  | some level =>
    refine stands_breakNext hmark hvisible hneat.tail hbehind _ ?_
    rw [hlead, hnext]
    rfl
  | none =>
    rw [hnext] at hlead
    cases hopen : isOpenComment (h.shown p.token) with
    | false =>
      refine .flow ?_ hbehind (by simp [hvisible, hopen])
      simp [hlead, hopen]
    | true =>
      refine .comment ?_ hbehind rfl hopen (hneat.gap_head? ?_)
      · simp [hlead, hopen]
      · have hkind := kind_of_isOpenComment hopen
        rw [Hand.kind_shown] at hkind
        simp [absorbsSpace, hkind]

/-- The line is ended behind a token outside function calls only. -/
theorem inCall_visited (hneat : Neat s (p :: ps)) (hcarries : Carries s h w front (p :: ps))
    (hother : s.isDelimiter (h.shown p.token).text = false) (texts : List Text) (hps : ps ≠ [])
    (hflow : (h.visit d s texts p.gap p.token).hand.lead ≠ .flow) :
    (h.visit d s texts p.gap p.token).hand.footing.inCall = false := by
  rw [lead_visit hother] at hflow
  cases hnext : (h.move d s texts p.gap p.token).next with
  | some level => exact (checks_moveOf ..).inCall hnext
  | none =>
    cases hopen : isOpenComment (h.shown p.token) with
    | false => simp [hnext, hopen] at hflow
    | true =>
      simp only [Hand.visit, Hand.move, footing_of_comment s _ _ (kind_of_isOpenComment hopen)]
      exact inCall_of_openComment hneat hcarries hps hopen

theorem exists_visited_word (hmark : IsMark s) (hneat : Neat s (p :: ps))
    (hcarries : Carries s h w front (p :: ps)) {w' : Walk} {gs rest : List Token}
    (h' : Arrived d s h w front p w' gs rest) (hbehind : Writes ps rest)
    (hother : s.isDelimiter p.token.text = false) :
    ∃ w'' gs', w'.visit d s = some w'' ∧
      Fills (h.visit d s (ps.map (·.token.text)) p.gap p.token).gap gs' ∧
      Carries s (h.visit d s (ps.map (·.token.text)) p.gap p.token).hand w''
        (h.shown p.token :: (gs' ++ front)) ps := by
  have hvisible : (h.shown p.token).isSpace = false := by
    rw [Hand.isSpace_shown]
    exact hneat.visible p (by simp)
  have hshown : s.isDelimiter (h.shown p.token).text = false := by
    rwa [Hand.isDelimiter_shown hmark]
  have hword : (h.move d s (ps.map (·.token.text)) p.gap p.token).here.isSome = true →
      (h.shown p.token).kind ≠ .comment := by
    intro hhere hkind
    simp [Hand.move, here_of_comment s _ _ hkind] at hhere
  have hfirst : front = [] → h.gapBefore s p.gap p.token = [] := by
    intro hfront
    obtain ⟨hlead, hgap⟩ := hcarries.first hfront
    simp [Hand.gapBefore, hlead, hgap p (by simp)]
  obtain ⟨gs', hcursor, hgs'⟩ := exists_breakHere? hvisible hword hshown h'.gap
    hcarries.visible hfirst rest
  refine ⟨_, gs', h'.visit_eq hneat hcarries hbehind, ?_, ?_, rfl, fun _ _ _ => rfl, rfl, ?_,
    inCall_visited hneat hcarries hshown _, ?_⟩
  · have hempty : h.last.isNone = front.isEmpty := by
      rw [← hcarries.last]
      cases front <;> rfl
    simpa [Hand.visit, Hand.gapAfter, hshown, hempty] using hgs'
  · simp only [Walk.leave, Walk.follow, h'.cursor, hcursor]
    exact stands_visited hmark hneat hbehind hvisible hshown _ _
  · simpa using hvisible
  · simp

/-! ## Passing over a delimiter -/

theorem exists_skipped (hmark : IsMark s) (hneat : Neat s (p :: ps))
    (hcarries : Carries s h w front (p :: ps)) {level : Int} (hskip : h.skips? s p.token = some level) :
    ∃ w', w.behind? d s ((Token.visible front).length + 1) = some w ∧
      w.Leads d s ((Token.visible front).length + 1) w' ∧
      Carries s (h.skip s level p.token).hand w' (p.token :: front) ps := by
  obtain ⟨hlead, hdelimiter⟩ := Hand.lead_of_skips? hskip
  have hkind := hneat.marks p (by simp) hdelimiter
  have hvisible := hneat.visible p (by simp)
  have habsorbs : absorbsSpace p.token = true := by simp [absorbsSpace, hkind]
  have houtside := hcarries.outside (by simp) (by simp [hlead])
  have hstands := hcarries.stands
  generalize hcursor : w.cursor = c at hstands
  generalize hqs : p :: ps = qs at hstands
  cases hstands with
  | done => cases hqs
  | flow lead => simp [hlead] at lead
  | comment lead => simp [hlead] at lead
  | line lead other =>
    cases hqs
    simp [hdelimiter] at other
  | spaced lead space text apart =>
    cases hqs
    exact absurd (hneat.tight p (by simp) habsorbs) apart
  | parted lead => simp [hlead] at lead
  | @skipped _ rest _ _ level' offset lead delimiter behind =>
    cases hqs
    obtain rfl : level = level' := by simpa [hlead] using lead
    have hpassed : w.passed = (Token.visible front).length + 1 := by
      rw [Walk.passed, hcursor]
      exact length_visible_cons hvisible front
    have hbehind := Walk.behind?_of_le (d := d) (s := s) (Nat.le_of_eq hpassed.symm)
    cases behind with
    | nil =>
      refine ⟨w, hbehind, .refl _ w, ?_, hcarries.footing, by simp, rfl, by simpa using hvisible, by simp,
        by simp⟩
      rw [hcursor]
      exact .done _
    | @cons q qs gs ts gap visible solid behind =>
      have hgap := hneat.gap_head? habsorbs q (by simp)
      rw [hgap] at gap
      obtain rfl := gap.eq_nil
      have hline := (isGap_lineBreak s level).append (isGap_lineBreak s level)
      have hvisit := visit_space (d := d) hmark hcursor rfl hline.2
      refine ⟨_, hbehind, .of_visit hvisit (Nat.le_of_eq hpassed), ?_, hcarries.footing,
        fun _ _ _ => rfl, rfl, by simpa using hvisible, fun _ _ => houtside, by simp⟩
      exact .parted rfl (Fills.space hline.1 offset) hgap behind

/-! ## The whole walk -/

/-- The walk passes a piece; when it first has the piece behind it, it stands on the next footing. -/
theorem exists_passed (hmark : IsMark s) (hneat : Neat s (p :: ps))
    (hcarries : Carries s h w front (p :: ps)) :
    ∃ v w' gs, w.behind? d s ((Token.visible front).length + 1) = some v ∧
      v.footing = (h.pass d s (ps.map (·.token.text)) p).hand.footing ∧
      w.Leads d s ((Token.visible front).length + 1) w' ∧
      Fills (h.pass d s (ps.map (·.token.text)) p).gap gs ∧
      Carries s (h.pass d s (ps.map (·.token.text)) p).hand w' (h.shown p.token :: (gs ++ front))
        ps := by
  unfold Hand.pass
  cases hskip : h.skips? s p.token with
  | some level =>
    obtain ⟨w', hbehind, hleads, hcarries'⟩ := exists_skipped (d := d) hmark hneat hcarries hskip
    refine ⟨w, w', [], hbehind, hcarries.footing, hleads, .nil, ?_⟩
    have hkind := hneat.marks p (by simp) (Hand.lead_of_skips? hskip).2
    rw [h.shown_of_kind_ne (by simp [hkind])]
    exact hcarries'
  | none =>
    obtain ⟨w', gs, rest, hbehind, harrived⟩ := exists_arrived (d := d) hmark hneat hcarries hskip
    have hvisited : ∃ w'' gs', w'.visit d s = some w'' ∧
        Fills (h.visit d s (ps.map (·.token.text)) p.gap p.token).gap gs' ∧
        Carries s (h.visit d s (ps.map (·.token.text)) p.gap p.token).hand w''
          (h.shown p.token :: (gs' ++ front)) ps := by
      cases hdelimiter : s.isDelimiter p.token.text with
      | true => exact exists_visited_delimiter hmark hneat hcarries harrived hbehind hdelimiter
      | false => exact exists_visited_word hmark hneat hcarries harrived hbehind hdelimiter
    obtain ⟨w'', gs', hvisit, hgap, hcarries'⟩ := hvisited
    have hleads : w.Leads d s (Token.visible front).length w'' :=
      harrived.leads.trans (.of_visit hvisit (Nat.le_of_eq harrived.passed)) (Nat.le_refl _)
    have hshown : (h.shown p.token).isSpace = false := by
      rw [Hand.isSpace_shown]
      exact hneat.visible p (by simp)
    have hpassed : (Token.visible front).length + 1 ≤ w''.passed := by
      rw [← length_visible_append_of_fills hgap front, ← length_visible_cons hshown]
      exact hcarries'.stands.length_visible_le
    refine ⟨w'', w'', gs', ?_, hcarries'.footing, hleads.trans (.refl _ w'') (Nat.le_succ _), hgap,
      hcarries'⟩
    rw [hleads.behind _ (Nat.lt_succ_self _), Walk.behind?_of_le hpassed]

end Steps

/-- A walk that carries `h` ends with the pieces that `h` places. -/
theorem exists_run_place {d : Dialect} {s : Style} (hmark : IsMark s) (ps : List Piece) {h : Hand} {w : Walk}
    {front : List Token} (hneat : Neat s ps) (hcarries : Carries s h w front ps) :
    ∃ ts, w.run d s = some (front.reverse ++ ts) ∧ Writes (place d s h ps) ts := by
  induction ps generalizing h w front with
  | nil =>
    have hcursor : w.cursor = ⟨front, []⟩ := by
      have hstands := hcarries.stands
      generalize w.cursor = c at hstands
      cases hstands with
      | done => rfl
      | flow lead writes closed => rw [writes.eq_nil]
      | comment lead writes opened isOpen tight => rw [writes.eq_nil]
    refine ⟨[], ?_, .nil⟩
    rw [Walk.run]
    simp [hcursor, Cursor.tokens]
  | cons p ps ih =>
    obtain ⟨-, w', gs, -, -, hleads, hgap, hcarries'⟩ := exists_passed (d := d) hmark hneat hcarries
    obtain ⟨ts, hts, hwrites⟩ := ih hneat.tail hcarries'
    refine ⟨gs ++ h.shown p.token :: ts, ?_, ?_⟩
    · rw [hleads.run, hts]
      simp [hgap.reverse]
    · refine .cons (p := ⟨_, _⟩) hgap ?_ ?_ hwrites
      · rw [Hand.isSpace_shown]
        exact hneat.visible p (by simp)
      · rw [Hand.allBlank_shown]
        exact hneat.solid p (by simp)

/-- The walk that carries nothing, at the start of tokens that write some pieces. -/
theorem carries_start {s : Style} {ps : List Piece} {ns : List Token} (hwrites : Writes ps ns)
    (hfirst : ∀ p ∈ ps.head?, p.gap = []) : Carries s .start (Walk.start ns) [] ps :=
  ⟨.flow rfl hwrites (by simp), rfl, fun _ _ _ => rfl, rfl, by simp,
    fun _ hlead => absurd rfl hlead, fun _ => ⟨rfl, hfirst⟩⟩

/-- The walk over tokens that write neat pieces ends with tokens that write the placed pieces. -/
theorem exists_breakLines {d : Dialect} {s : Style} (hmark : IsMark s) {ps : List Piece}
    {ns : List Token} (hneat : Neat s ps) (hwrites : Writes ps ns)
    (hfirst : ∀ p ∈ ps.head?, p.gap = []) :
    ∃ ts, breakLines d s ns = some ts ∧ Writes (place d s .start ps) ts :=
  exists_run_place hmark ps hneat (carries_start hwrites hfirst)

/-- What the walk carries behind the pieces `ps`, in front of `qs`. -/
def Hand.past (d : Dialect) (s : Style) : Hand → List Piece → List Piece → Hand
  | h, [], _ => h
  | h, p :: ps, qs => Hand.past d s (h.pass d s ((ps ++ qs).map (·.token.text)) p).hand ps qs

/-- When a walk that carries `h` first has some of the pieces behind it, it stands on the footing of the
hand there. -/
theorem exists_behind?_past {d : Dialect} {s : Style} (hmark : IsMark s) {ps qs : List Piece} {h : Hand}
    {w : Walk} {front : List Token} (hneat : Neat s (ps ++ qs)) (hcarries : Carries s h w front (ps ++ qs)) :
    ∃ v, w.behind? d s ((Token.visible front).length + ps.length) = some v ∧
      v.footing = (h.past d s ps qs).footing := by
  induction ps generalizing h w front with
  | nil => exact ⟨w, Walk.behind?_of_le hcarries.stands.length_visible_le, hcarries.footing⟩
  | cons p ps ih =>
    obtain ⟨v, w', gs, hbehind, hfooting, hleads, hgap, hcarries'⟩ :=
      exists_passed (d := d) hmark hneat hcarries
    cases ps with
    | nil => exact ⟨v, hbehind, hfooting⟩
    | cons q ps =>
      obtain ⟨v, hv, hfooting⟩ := ih hneat.tail hcarries'
      have hshown : (h.shown p.token).isSpace = false := by
        rw [Hand.isSpace_shown]
        exact hneat.visible p (by simp)
      rw [length_visible_cons hshown, length_visible_append_of_fills hgap] at hv
      refine ⟨v, ?_, hfooting⟩
      rw [hleads.behind _ (by simp), ← hv]
      congr 1
      simp only [List.length_cons]
      omega

/-- A walk that carries `h` goes on as one that carries the hand behind some of the pieces. -/
theorem exists_carries_past {d : Dialect} {s : Style} (hmark : IsMark s) {ps qs : List Piece} {h : Hand}
    {w : Walk} {front : List Token} (hneat : Neat s (ps ++ qs)) (hcarries : Carries s h w front (ps ++ qs)) :
    ∃ w' front', w.Leads d s ((Token.visible front).length + ps.length) w' ∧
      (Token.visible front').length = (Token.visible front).length + ps.length ∧
      Carries s (h.past d s ps qs) w' front' qs := by
  induction ps generalizing h w front with
  | nil => exact ⟨w, front, .refl _ w, rfl, hcarries⟩
  | cons p ps ih =>
    obtain ⟨-, w', gs, -, -, hleads, hgap, hcarries'⟩ := exists_passed (d := d) hmark hneat hcarries
    obtain ⟨w'', front', hleads', hlength, hcarries''⟩ := ih hneat.tail hcarries'
    have hshown : (h.shown p.token).isSpace = false := by
      rw [Hand.isSpace_shown]
      exact hneat.visible p (by simp)
    have hpassed : (Token.visible (h.shown p.token :: (gs ++ front))).length + ps.length =
        (Token.visible front).length + (p :: ps).length := by
      rw [length_visible_cons hshown, length_visible_append_of_fills hgap, List.length_cons]
      omega
    rw [hpassed] at hleads' hlength
    exact ⟨w'', front', hleads.trans hleads' (by simp), hlength, hcarries''⟩

/-- The footing of the walk over tokens that write neat pieces, when it first has some of the pieces
behind it. -/
theorem exists_behind? {d : Dialect} {s : Style} (hmark : IsMark s) {ps qs : List Piece} {ns : List Token}
    (hneat : Neat s (ps ++ qs)) (hwrites : Writes (ps ++ qs) ns)
    (hfirst : ∀ p ∈ (ps ++ qs).head?, p.gap = []) :
    ∃ v, (Walk.start ns).behind? d s ps.length = some v ∧
      v.footing = (Hand.start.past d s ps qs).footing := by
  have hcourse := exists_behind?_past (d := d) hmark hneat (carries_start hwrites hfirst)
  simpa [Token.visible] using hcourse

end SqlLayout.Layout
