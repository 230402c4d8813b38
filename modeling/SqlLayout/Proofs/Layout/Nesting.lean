import SqlLayout.Proofs.Layout.Calls
import SqlLayout.Proofs.Layout.GapShape

/-!
# Bracket pairs

Between a bracket and the one that closes it the walk opens and closes brackets in pairs, so behind the
pair it stands on the brackets and on the level that it had in front, whatever keywords and delimiters
did to the level in between (`footing_past_pair`).  The closing bracket starts a line at that level
(`gap_pass_close`).
-/

namespace SqlLayout.Layout

/-! ## Brackets of a token list -/

theorem openedIn_append (n : Nat) (ts us : List Token) :
    openedIn n (ts ++ us) = (openedIn n ts).bind fun m => openedIn m us := by
  induction ts generalizing n with
  | nil => rfl
  | cons t ts ih =>
    rw [List.cons_append]
    simp only [openedIn]
    split
    · exact ih (n + 1)
    · split
      · cases n with
        | zero => rfl
        | succ n => exact ih n
      · exact ih n

/-- Brackets that are open in front stay open. -/
theorem openedIn_add {n m : Nat} {ts : List Token} (h : openedIn n ts = some m) (k : Nat) :
    openedIn (n + k) ts = some (m + k) := by
  induction ts generalizing n with
  | nil =>
    obtain rfl : n = m := by simpa [openedIn] using h
    rfl
  | cons t ts ih =>
    obtain ⟨j, hrest, -⟩ := openedIn_cons h
    rw [hrest k]
    exact ih ((hrest 0).symm.trans h)

/-- A bracket in front of balanced tokens is not closed by them. -/
theorem not_balanced_of_open {mid inside : List Token} {a : Token} (ha : a.isSymbol ['('] = true)
    (hinside : openedIn 0 inside = some 0) : openedIn 0 (mid ++ a :: inside) ≠ some 0 := by
  rw [openedIn_append]
  cases openedIn 0 mid with
  | none => simp
  | some m =>
    have hrest := openedIn_add hinside (m + 1)
    rw [Nat.zero_add] at hrest
    simp [openedIn, ha, hrest]

/-- The bracket that a closing one closes is determined by what is in front of it. -/
theorem eq_of_balanced {front front' inside inside' : List Token} {a a' : Token}
    (h : front ++ a :: inside = front' ++ a' :: inside') (ha : a.isSymbol ['('] = true)
    (ha' : a'.isSymbol ['('] = true) (hinside : openedIn 0 inside = some 0)
    (hinside' : openedIn 0 inside' = some 0) : front = front' ∧ a = a' ∧ inside = inside' := by
  rcases List.append_eq_append_iff.mp h with ⟨mid, hfront, hmid⟩ | ⟨mid, hfront, hmid⟩
  · cases mid with
    | nil =>
      obtain ⟨rfl, rfl⟩ := List.cons.inj hmid
      exact ⟨by simpa using hfront.symm, rfl, rfl⟩
    | cons b mid =>
      obtain ⟨-, rfl⟩ := List.cons.inj hmid
      exact absurd hinside (not_balanced_of_open ha' hinside')
  · cases mid with
    | nil =>
      obtain ⟨rfl, rfl⟩ := List.cons.inj hmid
      exact ⟨by simpa using hfront, rfl, rfl⟩
    | cons b mid =>
      obtain ⟨-, rfl⟩ := List.cons.inj hmid
      exact absurd hinside' (not_balanced_of_open ha hinside)

/-! ## Moves at brackets -/

section Moves

variable {d : Dialect} {s : Style} {h : Hand}

theorem moveOf_open (around : Surroundings) {t : Token} (ht : t.isSymbol ['('] = true) (f : Footing) :
    moveOf s around t f =
      let inner := { f with brackets := ⟨around.call, f.level⟩ :: f.brackets, level := f.level + 1 }
      ⟨none, inner.breakAt (f.level + 1), inner⟩ := by
  have hword : Text.upper t.text = ['('] := (Text.upper_eq_iff (by decide)).mpr (text_of_isSymbol ht)
  simp [moveOf, kind_of_isSymbol ht, Move.onSymbol, hword]

theorem moveOf_close (around : Surroundings) {t : Token} (ht : t.isSymbol [')'] = true) {f : Footing}
    {b : Bracket} {bs : List Bracket} (hf : f.brackets = b :: bs) :
    moveOf s around t f = ⟨f.breakAt b.level, none, { f with brackets := bs, level := b.level }⟩ := by
  have hword : Text.upper t.text = [')'] := (Text.upper_eq_iff (by decide)).mpr (text_of_isSymbol ht)
  simp [moveOf, kind_of_isSymbol ht, Move.onSymbol, hword, hf]

/-- A closing bracket without an opening one does nothing. -/
theorem moveOf_close_nil (hmark : IsMark s) (around : Surroundings) {t : Token}
    (ht : t.isSymbol [')'] = true) {f : Footing} (hf : f.brackets = []) :
    moveOf s around t f = .stay f := by
  have htext := text_of_isSymbol ht
  have hword : Text.upper t.text = [')'] := (Text.upper_eq_iff (by decide)).mpr htext
  have hother : s.isDelimiter [')'] = false := htext ▸ isDelimiter_of_bracket hmark (.inr ht)
  simp [moveOf, kind_of_isSymbol ht, Move.onSymbol, hword, hf, Move.onSeparator, hother]

theorem pass_of_bracket (hmark : IsMark s) (h : Hand) (rest : List Text) {p : Piece}
    (hp : p.token.isSymbol ['('] = true ∨ p.token.isSymbol [')'] = true) :
    h.pass d s rest p = h.visit d s rest p.gap p.token := by
  have hskip : h.skips? s p.token = none := by
    unfold Hand.skips?
    split
    · simp [isDelimiter_of_bracket hmark hp]
    · rfl
  simp only [Hand.pass, hskip]

theorem shown_of_bracket (h : Hand) {t : Token}
    (ht : t.isSymbol ['('] = true ∨ t.isSymbol [')'] = true) : h.shown t = t := by
  refine h.shown_of_kind_ne ?_
  rcases ht with ht | ht <;> simp [kind_of_isSymbol ht]

/-- The walk opens and closes the brackets that it passes. -/
theorem brackets_pass (hmark : IsMark s) (rest : List Text) (p : Piece) :
    (h.pass d s rest p).hand.footing.brackets =
      if p.token.isSymbol ['('] then ⟨d.isFunction h.previous, h.footing.level⟩ :: h.footing.brackets
      else if p.token.isSymbol [')'] then h.footing.brackets.tail
      else h.footing.brackets := by
  cases hskip : h.skips? s p.token with
  | some level =>
    obtain ⟨-, hdelimiter⟩ := Hand.lead_of_skips? hskip
    obtain ⟨hopen, hclose, -⟩ := text_ne_of_isDelimiter hmark hdelimiter
    simp [Hand.pass, hskip, Hand.skip, Token.isSymbol, hopen, hclose]
  | none =>
    simp only [Hand.pass, hskip, Hand.visit, Hand.move, brackets_moveOf, isSymbol_shown, Hand.around]

end Moves

/-! ## Pairs -/

section Pairs

variable {d : Dialect} {s : Style} {h : Hand}

theorem Hand.past_append (h : Hand) (ps qs rs : List Piece) :
    h.past d s (ps ++ qs) rs = (h.past d s ps (qs ++ rs)).past d s qs rs := by
  induction ps generalizing h with
  | nil => rfl
  | cons p ps ih => rw [List.cons_append, Hand.past, Hand.past, ih, List.append_assoc]

/-- The walk carries a token once it has passed one. -/
theorem Hand.last_past_ne_none (h : Hand) (hlast : h.last ≠ none) (ps qs : List Piece) :
    (h.past d s ps qs).last ≠ none := by
  induction ps generalizing h with
  | nil => exact hlast
  | cons p ps ih =>
    refine ih _ ?_
    unfold Hand.pass
    split <;> simp [Hand.skip, Hand.visit]

/-- Behind pieces that close none of the brackets in front, these are still open. -/
theorem drop_brackets_past (hmark : IsMark s) {m n : Nat} {ps : List Piece} (qs : List Piece)
    (hopened : openedIn m (ps.map Piece.token) = some n) :
    (h.past d s ps qs).footing.brackets.drop n = h.footing.brackets.drop m := by
  induction ps generalizing h m with
  | nil =>
    obtain rfl : m = n := by simpa [openedIn] using hopened
    rfl
  | cons p ps ih =>
    rw [List.map_cons] at hopened
    obtain ⟨k, hrest, hdrop⟩ := openedIn_cons hopened
    rw [Hand.past, ih ((hrest 0).symm.trans hopened), brackets_pass hmark]
    exact hdrop Bracket _ h.footing.brackets

variable {a e : Piece} {inside qs : List Piece}

/-- In front of the bracket that closes `a`, that of `a` is the innermost one. -/
theorem brackets_past_inside (hmark : IsMark s) (ha : a.token.isSymbol ['('] = true)
    (hinside : openedIn 0 (inside.map Piece.token) = some 0) (qs : List Piece) :
    (h.past d s (a :: inside) qs).footing.brackets =
      ⟨d.isFunction h.previous, h.footing.level⟩ :: h.footing.brackets := by
  have hdrop := drop_brackets_past (d := d) (s := s)
    (h := (h.pass d s ((inside ++ qs).map (·.token.text)) a).hand) hmark qs hinside
  rw [Hand.past, ← List.drop_zero (l := (Hand.past ..).footing.brackets), hdrop, List.drop_zero,
    brackets_pass hmark, if_pos ha]

/-- Behind a bracket pair the walk has the brackets and the level that it had in front. -/
theorem footing_past_pair (hmark : IsMark s) (ha : a.token.isSymbol ['('] = true)
    (he : e.token.isSymbol [')'] = true) (hinside : openedIn 0 (inside.map Piece.token) = some 0)
    (qs : List Piece) :
    (h.past d s (a :: (inside ++ [e])) qs).footing.brackets = h.footing.brackets ∧
      (h.past d s (a :: (inside ++ [e])) qs).footing.level = h.footing.level := by
  have hbrackets := brackets_past_inside (d := d) (h := h) hmark ha hinside ([e] ++ qs)
  rw [← List.cons_append, Hand.past_append]
  generalize h.past d s (a :: inside) ([e] ++ qs) = k at hbrackets ⊢
  simp only [Hand.past, pass_of_bracket hmark _ _ (.inr he), Hand.visit, Hand.move,
    shown_of_bracket _ (.inr he), moveOf_close _ he hbrackets, and_self]

/-- The closing bracket of a pair starts a line at the level in front of the pair, unless a function call
is open. -/
theorem gap_pass_close (hmark : IsMark s) (ha : a.token.isSymbol ['('] = true)
    (he : e.token.isSymbol [')'] = true) (hinside : openedIn 0 (inside.map Piece.token) = some 0)
    (hcall : (h.past d s [a] (inside ++ e :: qs)).footing.inCall = false) (rest : List Text) :
    ((h.past d s (a :: inside) (e :: qs)).pass d s rest e).gap = s.lineBreak h.footing.level := by
  have hbrackets := brackets_past_inside (d := d) (h := h) hmark ha hinside (e :: qs)
  have hempty : openedIn 0 (([] : List Piece).map Piece.token) = some 0 := rfl
  have hone := brackets_past_inside (d := d) (h := h) hmark ha hempty (inside ++ e :: qs)
  have hcall' : (h.past d s (a :: inside) (e :: qs)).footing.inCall = false := by
    rw [Footing.inCall, hbrackets, ← hone]
    exact hcall
  have hlast : (h.past d s (a :: inside) (e :: qs)).last ≠ none := by
    refine Hand.last_past_ne_none _ ?_ inside _
    rw [pass_of_bracket hmark _ _ (.inl ha)]
    simp [Hand.visit]
  have hsome : (h.past d s (a :: inside) (e :: qs)).last.isNone = false := by
    rwa [Option.isNone_eq_false_iff, Option.isSome_iff_ne_none]
  simp [pass_of_bracket hmark _ _ (.inr he), Hand.visit, Hand.move, shown_of_bracket _ (.inr he),
    moveOf_close _ he hbrackets, Hand.gapAfter, isDelimiter_of_bracket hmark (.inr he), hsome,
    Footing.breakAt, hcall']

end Pairs

end SqlLayout.Layout
