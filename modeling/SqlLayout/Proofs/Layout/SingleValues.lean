import SqlLayout.Proofs.Layout.Positions
import SqlLayout.Proofs.Text.Blank

/-!
# Compacting leaves no single value behind

A window is a bracket pair around one token between white space.  Compacting goes over a list once, from
its end.  What a collapse leaves is no opening bracket, and nothing behind it changes, so no window is
left (`not_infix_compact`).  Every token of the result is a token of the list, or stands for a window
whose middle was collapsed before it (`exists_collapsed`).
-/

namespace SqlLayout.Layout

/-- A bracket pair and the white space at its two ends. -/
structure Window where
  first : Token
  left : Token
  right : Token
  last : Token
  opens : first.isSymbol ['('] = true
  blankLeft : left.isBlank = true
  blankRight : right.isBlank = true
  closes : last.isSymbol [')'] = true

namespace Window

/-- The tokens of the pair around others. -/
def around (w : Window) (inner : List Token) : List Token :=
  w.first :: w.left :: (inner ++ [w.right, w.last])

/-- The pair and the token in it as one token. -/
def join (w : Window) (c : Token) : Token := w.first.withText ('(' :: c.text ++ [')'])

theorem isSingleValue (w : Window) : isSingleValue w.first w.left w.right w.last = true := by
  simp [Layout.isSingleValue, w.opens, w.blankLeft, w.blankRight, w.closes]

theorem exists_of_isSingleValue {a b d e : Token} (h : Layout.isSingleValue a b d e = true) :
    ∃ w : Window, w.first = a ∧ w.left = b ∧ w.right = d ∧ w.last = e := by
  simp only [Layout.isSingleValue, Bool.and_eq_true] at h
  exact ⟨⟨a, b, d, e, h.1.1.1, h.1.1.2, h.1.2, h.2⟩, rfl, rfl, rfl, rfl⟩

/-- A collapsed window is no symbol of one character. -/
theorem isSymbol_join (w : Window) (c : Token) (mark : Char) : (w.join c).isSymbol [mark] = false := by
  simp [join, Token.isSymbol, Token.withText]

theorem isBlank_join (w : Window) (c : Token) : (w.join c).isBlank = false := by
  simp only [Token.isBlank, join, Token.withText]
  rw [List.cons_append, Text.allBlank_cons]
  rfl

theorem isSymbol_open_of_isBlank {t : Token} (h : t.isBlank = true) : t.isSymbol ['('] = false := by
  cases hopen : t.isSymbol ['('] with
  | false => rfl
  | true =>
    rw [Token.isBlank, text_of_isSymbol hopen] at h
    exact absurd h (by decide)

theorem isSymbol_open_last (w : Window) : w.last.isSymbol ['('] = false := by
  simp [Token.isSymbol, text_of_isSymbol w.closes]

end Window

/-- `Collapsed b t`: the token is one of the list, or stands for a window around tokens that collapse. -/
inductive Collapsed : List Token → Token → Prop
  | kept (t : Token) : Collapsed [t] t
  | window (w : Window) {inner : List Token} {c : Token} (middle : Collapsed inner c) :
      Collapsed (w.around inner) (w.join c)

variable {ts b inner : List Token} {t : Token}

/-! ## One token in front -/

/-- Compacting keeps the token in front, or it collapses a window that begins there. -/
theorem compact_cons_cases (t : Token) (ts : List Token) :
    (compact (t :: ts) = t :: compact ts ∧ ∀ w c, ¬ Window.around w [c] <+: t :: compact ts) ∨
      ∃ (w : Window) (c : Token) (rest : List Token), w.first = t ∧
        compact ts = w.left :: c :: w.right :: w.last :: rest ∧ compact (t :: ts) = w.join c :: rest := by
  have hcompact : compact (t :: ts) = compactFront (t :: compact ts) := rfl
  rw [hcompact]
  rcases compactFront_cons t (compact ts) with hkeep | ⟨b, c, d, e, rest, hts, hsingle, hjoin⟩
  · refine .inl ⟨hkeep, ?_⟩
    rintro w c ⟨rest, hrest⟩
    have hlength := congrArg List.length hkeep
    rw [← hrest] at hlength
    simp [Window.around, compactFront, w.isSingleValue] at hlength
  · obtain ⟨w, rfl, rfl, rfl, rfl⟩ := Window.exists_of_isSingleValue hsingle
    exact .inr ⟨w, c, rest, rfl, hts, hjoin⟩

/-! ## No window is left -/

/-- Compacting leaves no window. -/
theorem not_infix_compact (ts : List Token) (w : Window) (c : Token) : ¬ w.around [c] <:+: compact ts := by
  induction ts with
  | nil => exact fun h => absurd (List.eq_nil_of_infix_nil h) (by simp [Window.around])
  | cons t ts ih =>
    intro h
    rcases compact_cons_cases t ts with ⟨hkeep, hnone⟩ | ⟨v, x, rest, -, hts, hjoin⟩
    · rw [hkeep, List.infix_cons_iff] at h
      exact h.elim (hnone w c) ih
    · rw [hjoin, List.infix_cons_iff] at h
      rcases h with ⟨more, hfront⟩ | hrest
      · have hfirst : w.first = v.join x := (List.cons.inj hfront).1
        have hopens := w.opens
        rw [hfirst, v.isSymbol_join] at hopens
        cases hopens
      · -- nothing behind the collapsed window is new
        refine ih (hrest.trans ?_)
        rw [hts]
        exact (List.suffix_append [v.left, x, v.right, v.last] rest).isInfix

/-- A list without windows stays as it is. -/
theorem compact_of_not_infix (h : ∀ (w : Window) c, ¬ w.around [c] <:+: ts) : compact ts = ts := by
  induction ts with
  | nil => rfl
  | cons t ts ih =>
    have hrest : compact ts = ts := ih fun w c hinfix => h w c (List.infix_cons hinfix)
    rcases compact_cons_cases t ts with ⟨hkeep, -⟩ | ⟨w, c, rest, rfl, hts, -⟩
    · rw [hkeep, hrest]
    · rw [hrest] at hts
      subst hts
      exact absurd (List.prefix_append (w.around [c]) rest).isInfix (h w c)

/-! ## What a token stands for -/

theorem Collapsed.eq_of_isBlank (h : Collapsed b t) (ht : t.isBlank = true) : b = [t] := by
  cases h with
  | kept => rfl
  | window w => rw [w.isBlank_join] at ht; cases ht

theorem Collapsed.eq_of_isSymbol {mark : Char} (h : Collapsed b t) (ht : t.isSymbol [mark] = true) :
    b = [t] := by
  cases h with
  | kept => rfl
  | window w => rw [w.isSymbol_join] at ht; cases ht

/-- The tokens of a compacted list stand, in order, for all tokens of the list. -/
theorem exists_collapsed (ts : List Token) :
    ∃ blocks : List (List Token), blocks.flatten = ts ∧ List.Forall₂ Collapsed blocks (compact ts) := by
  induction ts with
  | nil => exact ⟨[], rfl, .nil⟩
  | cons t ts ih =>
    obtain ⟨blocks, rfl, hblocks⟩ := ih
    rcases compact_cons_cases t blocks.flatten with ⟨hkeep, -⟩ | ⟨w, c, rest, rfl, hts, hjoin⟩
    · exact ⟨[t] :: blocks, rfl, hkeep ▸ .cons (.kept t) hblocks⟩
    · rw [hts] at hblocks
      obtain ⟨left, _, hleft, h₁, rfl⟩ := List.forall₂_cons_right_iff.mp hblocks
      obtain ⟨middle, _, hmiddle, h₂, rfl⟩ := List.forall₂_cons_right_iff.mp h₁
      obtain ⟨right, _, hright, h₃, rfl⟩ := List.forall₂_cons_right_iff.mp h₂
      obtain ⟨last, blocks, hlast, hrest, rfl⟩ := List.forall₂_cons_right_iff.mp h₃
      rw [hjoin]
      refine ⟨w.around middle :: blocks, ?_, .cons (.window w hmiddle) hrest⟩
      rw [hleft.eq_of_isBlank w.blankLeft, hright.eq_of_isBlank w.blankRight,
        hlast.eq_of_isSymbol w.closes]
      simp [Window.around]

/-- A token shows what the tokens show that it stands for. -/
theorem Collapsed.visible_text (h : Collapsed b t) :
    Text.visible t.text = Text.visible (Token.concat b) := by
  induction h with
  | kept t => simp [Token.concat]
  | @window w inner c middle ih =>
    have hleft := Text.visible_of_allBlank w.blankLeft
    have hright := Text.visible_of_allBlank w.blankRight
    have hconcat : Token.concat (w.around inner) =
        ['('] ++ (w.left.text ++ (Token.concat inner ++ (w.right.text ++ [')']))) := by
      simp [Token.concat, Window.around, text_of_isSymbol w.opens, text_of_isSymbol w.closes]
    have hjoin : (w.join c).text = ['('] ++ (c.text ++ [')']) := rfl
    rw [hconcat, hjoin]
    simp only [Text.visible_append, hleft, hright, ih, List.nil_append]

theorem visible_compact (ts : List Token) :
    Text.visible (Token.concat (compact ts)) = Text.visible (Token.concat ts) := by
  obtain ⟨blocks, rfl, hblocks⟩ := exists_collapsed ts
  generalize compact blocks.flatten = cs at hblocks
  induction hblocks with
  | nil => rfl
  | @cons b t blocks cs hb _ ih =>
    have hcons : Token.concat (t :: cs) = t.text ++ Token.concat cs := rfl
    have happend : Token.concat (b ++ blocks.flatten) = Token.concat b ++ Token.concat blocks.flatten :=
      List.flatMap_append
    rw [List.flatten_cons, hcons, happend, Text.visible_append, Text.visible_append, ih, hb.visible_text]

/-! ## Nested windows -/

/-- Windows one in the other around a token. -/
def nest (ws : List Window) (x : Token) : List Token := ws.foldr Window.around [x]

/-- The token that nested windows collapse to. -/
def joinNest (ws : List Window) (x : Token) : Token := ws.foldr Window.join x

theorem isSymbol_joinNest (ws : List Window) {x : Token} (hx : x.isSymbol ['('] = false) :
    (joinNest ws x).isSymbol ['('] = false := by
  cases ws with
  | nil => exact hx
  | cons w ws => exact w.isSymbol_join _ _

/-- Nested windows collapse to one token, whatever follows them. -/
theorem compact_nest_append (ws : List Window) {x : Token} (hx : x.isSymbol ['('] = false)
    (back : List Token) : compact (nest ws x ++ back) = joinNest ws x :: compact back := by
  induction ws generalizing back with
  | nil => exact compact_cons_of_kind_ne hx back
  | cons w ws ih =>
    have hinner : compact (nest ws x ++ w.right :: w.last :: back) =
        joinNest ws x :: w.right :: w.last :: compact back := by
      rw [ih, compact_cons_of_kind_ne (Window.isSymbol_open_of_isBlank w.blankRight),
        compact_cons_of_kind_ne w.isSymbol_open_last]
    have hsplit : nest (w :: ws) x ++ back =
        w.first :: w.left :: (nest ws x ++ w.right :: w.last :: back) := by
      simp [nest, Window.around]
    have houter : compact (nest (w :: ws) x ++ back) =
        compactFront (w.first :: w.left :: joinNest ws x :: w.right :: w.last :: compact back) := by
      rw [hsplit, ← hinner, ← compact_cons_of_kind_ne (Window.isSymbol_open_of_isBlank w.blankLeft)]
      rfl
    rw [houter, compactFront, if_pos w.isSingleValue]
    rfl

/-- Nested windows may be collapsed before everything else. -/
theorem compact_nest (front : List Token) (ws : List Window) {x : Token} (hx : x.isSymbol ['('] = false)
    (back : List Token) :
    compact (front ++ nest ws x ++ back) = compact (front ++ joinNest ws x :: back) := by
  have hjoin : compact (joinNest ws x :: back) = compact (nest ws x ++ back) := by
    rw [compact_nest_append ws hx, compact_cons_of_kind_ne (isSymbol_joinNest ws hx)]
  have hfront : ∀ ts, compact (front ++ ts) =
      front.foldr (fun t rest => compactFront (t :: rest)) (compact ts) := fun ts => List.foldr_append
  rw [List.append_assoc, hfront, hfront, hjoin]

/-- Compacting reaches a fixed point in one pass from the end, also when the pass is made by positions.
No window is left, so pairs collapse with all pairs around them; the visible characters stay, and every
token outside the windows is kept in its place. -/
theorem compact_reaches_fixed_point (ts : List Token) :
    compactBelow? (ts.length - 4) ts = some (compact ts) ∧
      (∀ (w : Window) c, ¬ w.around [c] <:+: compact ts) ∧
      compact (compact ts) = compact ts ∧
      (∀ front ws x back, x.isSymbol ['('] = false → ts = front ++ nest ws x ++ back →
        compact ts = compact (front ++ joinNest ws x :: back)) ∧
      Text.visible (Token.concat (compact ts)) = Text.visible (Token.concat ts) ∧
      ∃ blocks : List (List Token), blocks.flatten = ts ∧
        List.Forall₂ Collapsed blocks (compact ts) := by
  refine ⟨compactBelow?_eq_compact ts, not_infix_compact ts, ?_, ?_, visible_compact ts,
    exists_collapsed ts⟩
  · exact compact_of_not_infix (not_infix_compact ts)
  · rintro front ws x back hx rfl
    exact compact_nest front ws hx back

/-- A bracket pair that the walk spread over three lines. -/
def Window.spread (offset : Nat) : Window where
  first := ⟨.symbol, ['('], offset⟩
  left := .space "\n    ".toList offset
  right := .space ['\n'] offset
  last := ⟨.symbol, [')'], offset⟩
  opens := rfl
  blankLeft := (by decide : Text.allBlank "\n    ".toList = true)
  blankRight := (by decide : Text.allBlank ['\n'] = true)
  closes := rfl

/-- A value in two pairs of brackets collapses to one token. -/
theorem compact_reaches_fixed_point_varchar :
    Token.isSymbol ⟨.value, "10".toList, 9⟩ ['('] = false ∧
      compact ([⟨.keyword, "VARCHAR".toList, 0⟩] ++
          nest [.spread 7, .spread 8] ⟨.value, "10".toList, 9⟩ ++ []) =
        [⟨.keyword, "VARCHAR".toList, 0⟩, ⟨.symbol, "((10))".toList, 7⟩] := by
  have hvalue : Token.isSymbol ⟨.value, "10".toList, 9⟩ ['('] = false := rfl
  obtain ⟨-, -, -, hnest, -⟩ := compact_reaches_fixed_point
    ([⟨.keyword, "VARCHAR".toList, 0⟩] ++ nest [.spread 7, .spread 8] ⟨.value, "10".toList, 9⟩ ++ [])
  have hcompact := hnest _ _ _ _ hvalue rfl
  exact ⟨hvalue, hcompact.trans (by decide)⟩

end SqlLayout.Layout
