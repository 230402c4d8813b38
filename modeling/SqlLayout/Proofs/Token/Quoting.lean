import SqlLayout.Proofs.Token.Shape
import SqlLayout.Proofs.Token.Tiling

/-!
# Quoted values and what they hold

A text is quoted by doubling the quotes in it and putting one around.  Whatever it holds, the lexer
reads it back as one value and goes on behind it as if the text started there (`tokenizeFrom_shift`).
The other way round, a quoted value whose quotes come in pairs is a quoted text, of one text only,
and any other reaches to the end of the input.  The scan for the closing quote takes two quotes at a
time, so everything about it is by the recursion of `cutQuoted`.
-/

namespace SqlLayout

/-- The same token `n` bytes further on. -/
def Token.shift (n : Nat) (t : Token) : Token := { t with offset := n + t.offset }

namespace Lexer

variable {q : Char}

/-- The text with every `q` doubled. -/
def doubled (q : Char) (s : Text) : Text := s.flatMap fun c => if c = q then [q, q] else [c]

/-- The text between quotes `q`, with every `q` in it doubled. -/
def literal (q : Char) (s : Text) : Text := q :: (doubled q s ++ [q])

/-- The quotes `q` of a text come in pairs: the one that opens it and the one that closes it, and
every doubled one between them. -/
def Terminated (q : Char) (text : Text) : Prop := text.count q % 2 = 0

instance (q : Char) (text : Text) : Decidable (Terminated q text) :=
  inferInstanceAs (Decidable (_ = _))

/-! ## Doubled quotes -/

@[simp] theorem doubled_nil : doubled q [] = [] := rfl

@[simp] theorem doubled_cons_self (s : Text) : doubled q (q :: s) = q :: q :: doubled q s := by
  simp [doubled]

@[simp] theorem doubled_cons_of_ne {c : Char} (h : c ≠ q) (s : Text) :
    doubled q (c :: s) = c :: doubled q s := by
  simp [doubled, h]

theorem doubled_inj {s t : Text} (h : doubled q s = doubled q t) : s = t := by
  induction s generalizing t with
  | nil =>
    cases t with
    | nil => rfl
    | cons c t => by_cases hc : c = q <;> simp_all
  | cons c s ih =>
    cases t with
    | nil => by_cases hc : c = q <;> simp_all
    | cons c' t =>
      by_cases hc : c = q <;> by_cases hc' : c' = q
      · subst hc hc'
        rw [doubled_cons_self, doubled_cons_self] at h
        rw [ih (List.cons.inj (List.cons.inj h).2).2]
      · subst hc
        rw [doubled_cons_self, doubled_cons_of_ne hc'] at h
        exact absurd (List.cons.inj h).1.symm hc'
      · subst hc'
        rw [doubled_cons_self, doubled_cons_of_ne hc] at h
        exact absurd (List.cons.inj h).1 hc
      · rw [doubled_cons_of_ne hc, doubled_cons_of_ne hc'] at h
        rw [(List.cons.inj h).1, ih (List.cons.inj h).2]

theorem literal_inj {s t : Text} (h : literal q s = literal q t) : s = t :=
  doubled_inj (List.append_cancel_right (List.cons.inj h).2)

theorem count_doubled (q : Char) (s : Text) : (doubled q s).count q % 2 = 0 := by
  induction s with
  | nil => rfl
  | cons c s ih =>
    by_cases hc : c = q
    · subst hc
      rw [doubled_cons_self, List.count_cons_self, List.count_cons_self]
      omega
    · rw [doubled_cons_of_ne hc, List.count_cons_of_ne hc]
      exact ih

theorem terminated_literal (s : Text) : Terminated q (literal q s) := by
  have h := count_doubled q s
  rw [Terminated, literal, List.count_cons_self, List.count_append, List.count_singleton_self]
  omega

theorem not_terminated_open (s : Text) : ¬ Terminated q (q :: doubled q s) := by
  have h := count_doubled q s
  rw [Terminated, List.count_cons_self]
  omega

/-! ## The scan for the closing quote -/

/-- The scan passes every doubled quote and stops at the first single one. -/
theorem cutQuoted_doubled (s : Text) {rest : Text} (h : rest.head? ≠ some q) :
    cutQuoted q (doubled q s ++ q :: rest) = (doubled q s ++ [q], rest) := by
  induction s with
  | nil =>
    refine cutQuoted_close fun x hx => ?_
    rintro rfl
    exact h hx
  | cons c s ih =>
    by_cases hc : c = q
    · subst hc
      rw [doubled_cons_self, List.cons_append, List.cons_append, cutQuoted, if_pos rfl, if_pos rfl,
        ih]
      rfl
    · rw [doubled_cons_of_ne hc, List.cons_append, cutQuoted_cons_of_ne hc, ih]
      rfl

/-- The scan stops behind a closing quote, in front of no other, or at the end of the input. -/
theorem cutQuoted_cases (q : Char) (s : Text) :
    (∃ u, (cutQuoted q s).1 = doubled q u ++ [q] ∧ (cutQuoted q s).2.head? ≠ some q) ∨
      ∃ u, cutQuoted q s = (doubled q u, []) := by
  fun_induction cutQuoted q s with
  | case1 => exact .inr ⟨[], rfl⟩
  | case2 c =>
    by_cases hc : c = q
    · subst hc
      exact .inl ⟨[], rfl, by simp⟩
    · exact .inr ⟨[c], by simp [hc]⟩
  | case3 cs ih =>
    rcases ih with ⟨u, htext, hrest⟩ | ⟨u, hcut⟩
    · exact .inl ⟨q :: u, by rw [htext, doubled_cons_self]; rfl, hrest⟩
    · exact .inr ⟨q :: u, by rw [hcut, doubled_cons_self]⟩
  | case4 c' cs hc' => exact .inl ⟨[], rfl, by simpa using hc'⟩
  | case5 c c' cs hc ih =>
    rcases ih with ⟨u, htext, hrest⟩ | ⟨u, hcut⟩
    · exact .inl ⟨c :: u, by rw [htext, doubled_cons_of_ne hc]; rfl, hrest⟩
    · exact .inr ⟨c :: u, by rw [hcut, doubled_cons_of_ne hc]⟩

/-! ## Quoted values among the tokens -/

/-- Where a text starts only moves its tokens. -/
theorem tokenizeFrom_shift (d : Dialect) (n offset : Nat) (s : Text) :
    tokenizeFrom d (n + offset) s = (tokenizeFrom d offset s).map (Token.shift n) := by
  fun_induction tokenizeFrom d offset s with
  | case1 offset => simp [tokenizeFrom]
  | case2 offset c cs l ih =>
    rw [tokenizeFrom_cons, List.map_cons, ← ih, Nat.add_assoc]
    rfl

/-- A quoted value among the tokens is a quoted text that no further quote follows, or the last
token. -/
theorem quoted_of_split {d : Dialect} (hq : isQuoteChar q = true) {offset : Nat} {s : Text}
    {front back : List Token} {t : Token} (h : tokenizeFrom d offset s = front ++ t :: back)
    (hhead : t.text.head? = some q) :
    (∃ u, t.text = literal q u ∧ (Token.concat back).head? ≠ some q) ∨
      ∃ u, t.text = q :: doubled q u ∧ back = [] := by
  obtain ⟨c, cs, ht, hback⟩ := exists_lexeme_of_split h
  obtain rfl : c = q := by
    have hc := head?_lexeme_text d c cs
    rw [ht] at hhead
    rw [hhead] at hc
    exact (Option.some.inj hc).symm
  rw [lexeme_quote d hq] at ht hback
  rcases cutQuoted_cases c cs with ⟨u, htext, hrest⟩ | ⟨u, hcut⟩
  · refine .inl ⟨u, by rw [ht, htext, literal], ?_⟩
    rw [hback, concat_tokenizeFrom]
    exact hrest
  · refine .inr ⟨u, by rw [ht, hcut], ?_⟩
    rw [hback, hcut, tokenizeFrom]

end Lexer

open Lexer

/-- Quoting is undone by the lexer under every dialect: whatever a quoted text holds, it is one
value, and the tokens behind it are those of the rest, that many bytes further on.  The other way
round, a value that starts with a quote is a quoted text of one text only, which no further quote
follows, when its quotes come in pairs; otherwise it is opened and never closed, and is the last
token. -/
theorem tokenize_literal (d : Dialect) (q : Char) (hq : q = '\'' ∨ q = '"') :
    (∀ s rest : Text, rest.head? ≠ some q →
      tokenize d (literal q s ++ rest) =
        ⟨.value, literal q s, 0⟩ ::
          (tokenize d rest).map (Token.shift (Text.byteSize (literal q s)))) ∧
    ∀ (sql : Text) (front : List Token) (t : Token) (back : List Token),
      tokenize d sql = front ++ t :: back → t.kind = .value → t.text.head? = some q →
      (Terminated q t.text →
        (∃! s, t.text = literal q s) ∧ (Token.concat back).head? ≠ some q) ∧
      (¬ Terminated q t.text → (∃! s, t.text = q :: doubled q s) ∧ back = []) := by
  have hquote : isQuoteChar q = true := by rcases hq with rfl | rfl <;> rfl
  constructor
  · intro s rest hrest
    have hinput : literal q s ++ rest = q :: (doubled q s ++ q :: rest) := by simp [literal]
    rw [hinput, tokenize, tokenizeFrom_cons, lexeme_quote d hquote, cutQuoted_doubled s hrest,
      Nat.add_comm, tokenizeFrom_shift]
    rfl
  · intro sql front t back hsplit _ hhead
    rcases quoted_of_split hquote hsplit hhead with ⟨u, htext, hback⟩ | ⟨u, htext, hback⟩
    · rw [htext]
      refine ⟨fun _ => ⟨⟨u, rfl, fun v hv => (literal_inj hv).symm⟩, hback⟩, fun hopen => ?_⟩
      exact absurd (terminated_literal u) hopen
    · rw [htext]
      refine ⟨fun hclosed => absurd hclosed (not_terminated_open u), fun _ => ⟨⟨u, rfl, ?_⟩, hback⟩⟩
      exact fun v hv => (doubled_inj (List.cons.inj hv).2).symm

/-- An escaped quote before the end of a string, and a string that is never closed. -/
theorem tokenize_literal_apostrophe :
    tokenize .standard "'it''s' <> 'é".toList =
        ⟨.value, "'it''s'".toList, 0⟩ :: (tokenize .standard " <> 'é".toList).map (Token.shift 7) ∧
      tokenize .standard " <> 'é".toList =
        [⟨.space, [' '], 0⟩, ⟨.symbol, ['<', '>'], 1⟩, ⟨.space, [' '], 3⟩] ++
          ⟨.value, "'é".toList, 4⟩ :: [] ∧
      (∃! s, "'é".toList = '\'' :: doubled '\'' s) ∧
      (∃! s, "'it''s'".toList = literal '\'' s) := by
  have htokens : tokenize .standard " <> 'é".toList =
      [⟨.space, [' '], 0⟩, ⟨.symbol, ['<', '>'], 1⟩, ⟨.space, [' '], 3⟩] ++
        ⟨.value, "'é".toList, 4⟩ :: [] := by decide +kernel
  have hopen := ((tokenize_literal .standard '\'' (.inl rfl)).2 _ _ _ _ htokens rfl rfl).2
    (by decide)
  have hread := (tokenize_literal .standard '\'' (.inl rfl)).1 "it's".toList " <> 'é".toList
    (by decide)
  have hclosed := ((tokenize_literal .standard '\'' (.inl rfl)).2 _ [] _ _ hread rfl rfl).1
    (by decide)
  exact ⟨hread, htokens, hopen.1, hclosed.1⟩

end SqlLayout
