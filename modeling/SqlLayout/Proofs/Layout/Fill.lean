import SqlLayout.Proofs.Layout.Compound

/-!
# Compacted brackets and filled gaps

After the walk, a bracket pair around one token becomes one token, and neighbours get the blanks
they need.  `Filled ws ms` describes both on the tokens themselves: some neighbours get a gap
between them, and a bracket pair loses the white space inside it.  The text of the layout is the
text of such a filled list (`exists_filled`).
-/

namespace SqlLayout.Layout

/-- `Bracketed b t`: the token `t` is a bracket pair, possibly nested, around one token of `b`. -/
inductive Bracketed : List Token → Token → Prop
  | one (t : Token) : Bracketed [t] t
  | pair (a e x : Token) (b : List Token) (first : a.isSymbol ['('] = true)
      (inner : Bracketed b x) (last : e.isSymbol [')'] = true) :
      Bracketed (a :: (b ++ [e])) (a.withText ('(' :: x.text ++ [')']))

/-- A line comment that lost its line feed. -/
def isOpenComment (t : Token) : Bool := isLineComment t && !Text.endsWith t.text '\n'

/-- Whether the list starts with a bracket pair, spread over three lines, around a line comment. -/
def bracketsComment : List Token → Bool
  | a :: b :: c :: d :: e :: _ =>
    a.isSymbol ['('] && b.isSpace && isLineComment c && d.isSpace && e.isSymbol [')']
  | _ => false

/-- `Filled ws ms`: `ms` is `ws` with gaps between neighbours and tight bracket pairs. -/
inductive Filled : List Token → List Token → Prop
  | nil : Filled [] []
  | keep (t : Token) {ws ms : List Token}
      (closed : isOpenComment t = true → ∀ n ∈ ms.head?, n.isSpace = true)
      (loose : bracketsComment (t :: ws) = false) (rest : Filled ws ms) : Filled (t :: ws) (t :: ms)
  | gap (p t : Token) (g : Text) (offset : Nat) {ws ms : List Token} (isGap : IsGap g)
      (visible : p.isSpace = false ∧ t.isSpace = false) (apart : opensComment p t = false)
      (line : isOpenComment p = true → '\n' ∈ g) (loose : bracketsComment (p :: ws) = false)
      (rest : Filled ws (t :: ms)) : Filled (p :: ws) (p :: Token.space g offset :: t :: ms)
  | tighten (a b c d e : Token) {block ws ms : List Token} (first : a.isSymbol ['('] = true)
      (left : b.isSpace = true) (inner : Bracketed block c) (right : d.isSpace = true)
      (last : e.isSymbol [')'] = true)
      (whole : isLineComment c = true → ∃ ws', ws = b :: c :: d :: e :: ws')
      (rest : Filled ws (b :: (block ++ d :: e :: ms))) : Filled (a :: ws) (a :: (block ++ e :: ms))

namespace Bracketed

theorem concat {b : List Token} {t : Token} (h : Bracketed b t) : Token.concat b = t.text := by
  induction h with
  | one t => simp [Token.concat]
  | pair a e x b first inner last ih =>
    simp only [Token.concat] at ih
    simp [Token.concat, Token.withText, text_of_isSymbol first, text_of_isSymbol last, ih]

theorem exists_first {b : List Token} {t : Token} (h : Bracketed b t) :
    ∃ a rest, b = a :: rest ∧ a.kind = t.kind := by
  cases h <;> exact ⟨_, _, rfl, rfl⟩

/-- Only symbols stand for more than themselves. -/
theorem eq_of_kind {b : List Token} {t : Token} (h : Bracketed b t) (hkind : t.kind ≠ .symbol) :
    b = [t] := by
  cases h with
  | one => rfl
  | pair a e x b first inner last => exact absurd (kind_of_isSymbol first) hkind

/-- A symbol of one character stands for itself. -/
theorem eq_of_isSymbol {b : List Token} {t : Token} {c : Char} (h : Bracketed b t)
    (hsymbol : t.isSymbol [c] = true) : b = [t] := by
  cases h with
  | one => rfl
  | pair a e x b first inner last =>
    have hlength := congrArg List.length (text_of_isSymbol hsymbol)
    simp [Token.withText] at hlength

theorem eq_of_isSpace {b : List Token} {t : Token} (h : Bracketed b t) (hspace : t.isSpace = true) :
    b = [t] := by
  refine h.eq_of_kind ?_
  have hkind : t.kind = .space := by simpa [Token.isSpace] using hspace
  simp [hkind]

end Bracketed

theorem Filled.edits {s : Style} {ws ms : List Token} (h : Filled ws ms) : Edits s ws ms := by
  induction h with
  | nil => exact .refl _
  | keep t closed loose rest ih => exact ih.cons t
  | @gap p t g offset ws ms isGap visible apart line loose rest ih =>
    refine (ih.cons p).trans (.single (.insert [] ms p t g offset isGap ?_))
    intro hopens
    simp [apart] at hopens
  | @tighten a b c d e block ws ms first left inner right last whole rest ih =>
    have habsorbs : ∀ {x : Token} {symbol : Text}, x.isSymbol symbol = true →
        absorbsSpace x = true := by
      intro x symbol hx
      simp [absorbsSpace, kind_of_isSymbol hx]
    have hleft : Edit s (a :: b :: (block ++ d :: e :: ms)) (a :: (block ++ d :: e :: ms)) :=
      .dropAfter [] _ a b (habsorbs first) left
    have hright : Edit s ((a :: block) ++ d :: e :: ms) ((a :: block) ++ e :: ms) :=
      .dropBefore _ ms d e right (habsorbs last)
    exact ((ih.cons a).trans (.single hleft)).trans (.single hright)

theorem Filled.head?_eq {ws ms : List Token} (h : Filled ws ms) : ms.head? = ws.head? := by
  cases h <;> rfl

/-! ## What the two passes do -/

theorem compactFront_cons (t : Token) (cs : List Token) :
    compactFront (t :: cs) = t :: cs ∨ ∃ b c d e ts, cs = b :: c :: d :: e :: ts ∧
      isSingleValue t b d e = true ∧
      compactFront (t :: cs) = t.withText ('(' :: c.text ++ [')']) :: ts := by
  match cs with
  | b :: c :: d :: e :: ts =>
    by_cases hsingle : isSingleValue t b d e = true
    · exact .inr ⟨b, c, d, e, ts, rfl, hsingle, by simp [compactFront, hsingle]⟩
    · exact .inl (by simp [compactFront, hsingle])
  | [] | [_] | [_, _] | [_, _, _] => exact .inl rfl

/-- A token of a compacted list that is no bracket pair was there before. -/
theorem exists_of_compact_eq {ws cs : List Token} {x : Token} (h : compact ws = x :: cs)
    (hx : x.kind = .symbol → x.text.length = 1) : ∃ ws', ws = x :: ws' ∧ compact ws' = cs := by
  cases ws with
  | nil => cases h
  | cons t ws =>
    have hcompact : compact (t :: ws) = compactFront (t :: compact ws) := rfl
    rw [hcompact] at h
    rcases compactFront_cons t (compact ws) with hkeep | ⟨b, c, d, e, ts, hws, hsingle, hjoin⟩
    · rw [hkeep] at h
      cases h
      exact ⟨ws, rfl, rfl⟩
    · rw [hjoin] at h
      cases h
      have hkind : t.kind = .symbol := by
        simp only [isSingleValue, Bool.and_eq_true] at hsingle
        exact kind_of_isSymbol hsingle.1.1.1
      have hlength := hx hkind
      simp [Token.withText] at hlength

theorem compact_cons_of_kind_ne {t : Token} (ht : t.isSymbol ['('] = false) (ws : List Token) :
    compact (t :: ws) = t :: compact ws := by
  have hcompact : compact (t :: ws) = compactFront (t :: compact ws) := rfl
  rw [hcompact]
  rcases compactFront_cons t (compact ws) with hkeep | ⟨b, c, d, e, ts, hws, hsingle, hjoin⟩
  · exact hkeep
  · simp [isSingleValue, ht] at hsingle

theorem isSymbol_of_isSpace {t : Token} (h : t.isSpace = true) (symbol : Text) :
    t.isSymbol symbol = false := by
  have hkind : t.kind = .space := by simpa [Token.isSpace] using h
  exact isSymbol_of_kind_ne (by simp [hkind]) symbol

theorem kind_of_isLineComment {t : Token} (h : isLineComment t = true) : t.kind = .comment := by
  simp only [isLineComment, Bool.and_eq_true, beq_iff_eq] at h
  exact h.1

theorem isLineComment_text {t : Token} (h : isLineComment t = true) :
    Dialect.isLineComment t.text = true := by
  simp only [isLineComment, Bool.and_eq_true] at h
  exact h.2

theorem isLineComment_of_kind_ne {t : Token} (h : t.kind ≠ .comment) : isLineComment t = false := by
  simp [isLineComment, h]

theorem kind_of_isOpenComment {t : Token} (h : isOpenComment t = true) : t.kind = .comment := by
  rw [isOpenComment, Bool.and_eq_true] at h
  exact kind_of_isLineComment h.1

/-- A line comment with its line feed is closed. -/
theorem isOpenComment_eq_false_of_ends {t : Token}
    (h : isLineComment t = true → Text.endsWith t.text '\n' = true) : isOpenComment t = false := by
  cases hline : isLineComment t with
  | false => simp [isOpenComment, hline]
  | true => simp [isOpenComment, h hline]

theorem breakText_of_kind_ne {line : Text} {t : Token} (ht : t.kind ≠ .comment) :
    breakText line t = line := by
  simp [breakText, isLineComment_of_kind_ne ht]

/-- A bracket pair around a line comment is compacted. -/
theorem bracketsComment_eq_false {t : Token} {ws : List Token} (hgaps : Gaps ws)
    (h : compactFront (t :: compact ws) = t :: compact ws) :
    bracketsComment (t :: ws) = false := by
  match ws with
  | b :: c :: d :: e :: r =>
    cases hpair : bracketsComment (t :: b :: c :: d :: e :: r) with
    | false => rfl
    | true =>
      simp only [bracketsComment, Bool.and_eq_true] at hpair
      obtain ⟨⟨⟨⟨hfirst, hb⟩, hc⟩, hd⟩, hlast⟩ := hpair
      have hc' : c.isSymbol ['('] = false :=
        isSymbol_of_kind_ne (by simp [kind_of_isLineComment hc]) _
      have he' : e.isSymbol ['('] = false := by simp [Token.isSymbol, text_of_isSymbol hlast]
      have hsingle : isSingleValue t b d e = true := by
        have hb' := (hgaps b (by simp) hb).2
        have hd' := (hgaps d (by simp) hd).2
        simp [isSingleValue, hfirst, hlast, Token.isBlank, hb', hd']
      rw [compact_cons_of_kind_ne (isSymbol_of_isSpace hb _), compact_cons_of_kind_ne hc',
        compact_cons_of_kind_ne (isSymbol_of_isSpace hd _), compact_cons_of_kind_ne he'] at h
      have hlength := congrArg List.length h
      simp [compactFront, hsingle] at hlength
  | [] | [_] | [_, _] | [_, _, _] => rfl

theorem insertGaps_space {s : Style} {p t : Token} (h : p.isSpace = true ∨ t.isSpace = true)
    (ts : List Token) : insertGaps s (p :: t :: ts) = p :: insertGaps s (t :: ts) := by
  have hgap : gap? s p t = none := by
    unfold gap?
    rcases h with h | h <;> simp [h]
  simp [insertGaps, hgap]

/-- Tokens with the same gaps behind them are followed by the same list. -/
theorem exists_insertGaps_eq {s : Style} {p q : Token} (h : ∀ n, gap? s p n = gap? s q n)
    (ts : List Token) :
    ∃ rest, insertGaps s (p :: ts) = p :: rest ∧ insertGaps s (q :: ts) = q :: rest := by
  cases ts with
  | nil => exact ⟨[], rfl, rfl⟩
  | cons n ns =>
    cases hgap : gap? s q n with
    | none => exact ⟨insertGaps s (n :: ns), by simp [insertGaps, h, hgap], by simp [insertGaps, hgap]⟩
    | some g =>
      exact ⟨Token.space g n.offset :: insertGaps s (n :: ns), by simp [insertGaps, h, hgap],
        by simp [insertGaps, hgap]⟩

/-- Nothing but the class of a symbol that is not embedded matters for the gap behind it. -/
theorem gap?_congr {s : Style} {p q : Token} (hp : p.kind = .symbol) (hq : q.kind = .symbol)
    (hp' : isEmbedded p = false) (hq' : isEmbedded q = false) (n : Token) :
    gap? s p n = gap? s q n := by
  unfold gap?
  simp [Token.isSpace, hp, hq, hp', hq']

theorem isEmbedded_eq_false {t : Token} (h1 : t.text ≠ [':']) (h2 : t.text ≠ ['.']) :
    isEmbedded t = false := by
  simp [isEmbedded, Token.isSymbol, h1, h2]

/-- Behind an open comment there is a gap with a line feed. -/
theorem gap?_openComment {s : Style} {p n : Token} (hp : isOpenComment p = true)
    (hn : n.isSpace = false) : gap? s p n = some ['\n'] := by
  have hkind : p.kind = .comment := by
    simp only [isOpenComment, isLineComment, Bool.and_eq_true, beq_iff_eq] at hp
    exact hp.1.1
  unfold gap?
  simp only [isOpenComment] at hp
  simp [Token.isSpace, hkind, hp] at hn ⊢
  exact hn

theorem mem_insertGaps {s : Style} {ts : List Token} {t : Token} (h : t ∈ ts) :
    t ∈ insertGaps s ts := by
  fun_induction insertGaps s ts with
  | case1 p n ts gap hgap ih =>
    rcases List.mem_cons.mp h with rfl | h
    · simp
    · simp [ih h]
  | case2 p n ts hgap ih =>
    rcases List.mem_cons.mp h with rfl | h
    · simp
    · simp [ih h]
  | case3 ts hshort => exact h

/-- A token in front of a filled list: a gap goes between the two where they need one. -/
theorem filled_cons (s : Style) (t : Token) (cs : List Token) {ws ms : List Token}
    (hloose : bracketsComment (t :: ws) = false) (hfilled : Filled ws ms)
    (hspells : Spells Bracketed ms (insertGaps s cs)) :
    ∃ ms', Filled (t :: ws) ms' ∧ Spells Bracketed ms' (insertGaps s (t :: cs)) := by
  cases cs with
  | nil =>
    cases hspells
    exact ⟨[t], .keep t (by simp) hloose hfilled, .cons (Bracketed.one t) .nil⟩
  | cons n ns =>
    obtain ⟨rest, hrest⟩ := exists_insertGaps_cons s n ns
    have hhead : ∃ a more, ms = a :: more ∧ a.kind = n.kind := by
      rw [hrest] at hspells
      cases hspells with
      | cons block _ =>
        obtain ⟨a, more, rfl, hkind⟩ := block.exists_first
        exact ⟨a, _, rfl, hkind⟩
    obtain ⟨a, more, rfl, hkind⟩ := hhead
    cases hgap : gap? s t n with
    | none =>
      refine ⟨t :: a :: more, .keep t ?_ hloose hfilled, ?_⟩
      · intro hopen x hx
        obtain rfl : a = x := by simpa using hx
        cases hspace : a.isSpace with
        | true => rfl
        | false =>
          have hn : n.isSpace = false := by simpa [Token.isSpace, hkind] using hspace
          rw [gap?_openComment hopen hn] at hgap
          cases hgap
      · rw [insertGaps, hgap]
        exact .cons (Bracketed.one t) hspells
    | some g =>
      refine ⟨t :: Token.space g n.offset :: a :: more, ?_, ?_⟩
      · have hvisible : t.isSpace = false ∧ n.isSpace = false := by
          cases ht : t.isSpace <;> cases hn : n.isSpace <;> simp_all [gap?]
        have ha : a.isSpace = false := by simpa [Token.isSpace, hkind] using hvisible.2
        refine .gap t a g n.offset (isGap_of_gap? hgap) ⟨hvisible.1, ha⟩ ?_ ?_ hloose hfilled
        · cases hopens : opensComment t a with
          | false => rfl
          | true =>
            obtain ⟨ht, ha⟩ := kind_of_opensComment hopens
            rw [gap?_symbol s ht (hkind.symm.trans ha)] at hgap
            cases hgap
        · intro hopen
          rw [gap?_openComment hopen hvisible.2] at hgap
          cases hgap
          simp
      · rw [insertGaps, hgap]
        exact .cons (Bracketed.one t) (.cons (Bracketed.one _) hspells)

theorem insertGaps_singleValue {s : Style} {b c d e : Token} (hb : b.isSpace = true)
    (hd : d.isSpace = true) (ts : List Token) :
    insertGaps s (b :: c :: d :: e :: ts) = b :: c :: d :: insertGaps s (e :: ts) := by
  rw [insertGaps_space (.inl hb), insertGaps_space (.inr hd), insertGaps_space (.inl hd)]

/-- A bracket pair around one token of a filled list becomes tight. -/
theorem filled_tighten (s : Style) {t b c d e : Token} (ts : List Token) {ws ms : List Token}
    (hfirst : t.isSymbol ['('] = true) (hb : b.isSpace = true) (hd : d.isSpace = true)
    (hlast : e.isSymbol [')'] = true)
    (hwhole : isLineComment c = true → ∃ ws', ws = b :: c :: d :: e :: ws') (hfilled : Filled ws ms)
    (hspells : Spells Bracketed ms (insertGaps s (b :: c :: d :: e :: ts))) :
    ∃ ms', Filled (t :: ws) ms' ∧
      Spells Bracketed ms' (insertGaps s (t.withText ('(' :: c.text ++ [')']) :: ts)) := by
  have hpair : ∀ n, gap? s (t.withText ('(' :: c.text ++ [')'])) n = gap? s e n := by
    have hkind : t.kind = .symbol := kind_of_isSymbol hfirst
    refine gap?_congr hkind (kind_of_isSymbol hlast) ?_ ?_
    · refine isEmbedded_eq_false ?_ ?_ <;> simp [Token.withText]
    · refine isEmbedded_eq_false ?_ ?_ <;> simp [text_of_isSymbol hlast]
  obtain ⟨rest, hjoined, hapart⟩ := exists_insertGaps_eq hpair ts
  rw [insertGaps_singleValue hb hd, hapart] at hspells
  rw [hjoined]
  cases hspells with
  | cons left hspells =>
    cases hspells with
    | cons inner hspells =>
      cases hspells with
      | cons right hspells =>
        cases hspells with
        | @cons _ fs _ _ last hspells =>
          obtain rfl := left.eq_of_isSpace hb
          obtain rfl := right.eq_of_isSpace hd
          obtain rfl := last.eq_of_isSymbol hlast
          refine ⟨_, .tighten t b c d e hfirst hb inner hd hlast hwhole hfilled, ?_⟩
          simpa using Spells.cons (Bracketed.pair t e c _ hfirst inner hlast) hspells

/-- The text of the layout is the text of its tokens, filled. -/
theorem exists_filled (s : Style) (ws : List Token) (hgaps : Gaps ws) (hsolid : Solid ws) :
    ∃ ms, Filled ws ms ∧ Spells Bracketed ms (insertGaps s (compact ws)) := by
  induction ws with
  | nil => exact ⟨[], .nil, .nil⟩
  | cons t ws ih =>
    have htail : Solid ws := fun x hx => hsolid x (by simp [hx])
    have hgaps' : Gaps ws := fun x hx => hgaps x (by simp [hx])
    obtain ⟨ms, hfilled, hspells⟩ := ih hgaps' htail
    have hcompact : compact (t :: ws) = compactFront (t :: compact ws) := rfl
    rw [hcompact]
    rcases compactFront_cons t (compact ws) with hkeep | ⟨b, c, d, e, ts, hws, hsingle, hjoin⟩
    · rw [hkeep]
      exact filled_cons s t (compact ws) (bracketsComment_eq_false hgaps' hkeep) hfilled hspells
    · rw [hjoin]
      rw [hws] at hspells
      have hms : Solid ms := hfilled.edits.preserves (s := s) Edit.solid htail
      have hfine : Solid (insertGaps s (b :: c :: d :: e :: ts)) :=
        hspells.solid (fun _ _ => Bracketed.concat) (fun _ _ => Bracketed.exists_first) hms
      have hspace : ∀ x ∈ b :: c :: d :: e :: ts, x.isBlank = true → x.isSpace = true := by
        intro x hx hblank
        cases hvisible : x.isSpace with
        | true => rfl
        | false =>
          have hsolid := hfine x (mem_insertGaps hx) hvisible
          simp only [Token.isBlank, hsolid] at hblank
          cases hblank
      simp only [isSingleValue, Bool.and_eq_true] at hsingle
      obtain ⟨⟨⟨hfirst, hb⟩, hd⟩, hlast⟩ := hsingle
      have hb' := hspace b (by simp) hb
      have hd' := hspace d (by simp) hd
      have hsymbol : ∀ x : Token, x.isSpace = true → x.kind = .symbol → x.text.length = 1 := by
        intro x hx hkind
        simp [Token.isSpace, hkind] at hx
      have hwhole : isLineComment c = true → ∃ ws', ws = b :: c :: d :: e :: ws' := by
        intro hc
        obtain ⟨ws1, rfl, hws1⟩ := exists_of_compact_eq hws (hsymbol b hb')
        obtain ⟨ws2, rfl, hws2⟩ := exists_of_compact_eq hws1
          (by simp [kind_of_isLineComment hc])
        obtain ⟨ws3, rfl, hws3⟩ := exists_of_compact_eq hws2 (hsymbol d hd')
        obtain ⟨ws4, rfl, -⟩ := exists_of_compact_eq hws3 (by simp [text_of_isSymbol hlast])
        exact ⟨ws4, rfl⟩
      exact filled_tighten s ts hfirst hb' hd' hlast hwhole hfilled hspells

end SqlLayout.Layout
