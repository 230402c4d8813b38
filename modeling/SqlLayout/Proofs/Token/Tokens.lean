import Mathlib.Data.List.TakeWhile
import SqlLayout.Proofs.Token.Reads

/-!
# The tokens of a text

White space tokens hold white space and never meet; every other token starts with a character that
is not white space; keywords are words.
-/

namespace SqlLayout.Layout

/-- What stops a run fails its test. -/
theorem eq_false_of_dropWhile {p : Char → Bool} {cs : Text} {c' : Char} {cs' : Text}
    (h : cs.dropWhile p = c' :: cs') : p c' = false := by
  have hhead := List.head?_dropWhile_not p cs
  simpa [h] using hhead

theorem isBlank_of_isDigit {c : Char} (h : Text.isDigit c = true) : Text.isBlank c = false := by
  simp only [Text.isDigit, Bool.and_eq_true, decide_eq_true_eq, Char.le_def,
    UInt32.le_iff_toNat_le] at h
  have hlow : 48 ≤ c.toNat := h.1
  have hhigh : c.toNat ≤ 57 := h.2
  have hblank : ¬ Text.isBlank c = true := by
    simp only [Text.isBlank, Bool.or_eq_true, Bool.and_eq_true, decide_eq_true_eq, beq_iff_eq]
    omega
  simpa using hblank

theorem isBlank_of_isLetter {c : Char} (h : Lexer.isLetter c = true) : Text.isBlank c = false := by
  simp only [Lexer.isLetter, Bool.and_eq_true, Bool.not_eq_true'] at h
  exact h.1.1

theorem isBlank_of_isSymbolChar {c : Char} (h : Lexer.isSymbolChar c = true) :
    Text.isBlank c = false := by
  have hall : ∀ x ∈ ['"', '?', '%', '&', '\'', '(', ')', '|', '*', '+', ',', '-', '.', '/', ':',
      ';', '<', '=', '>', '!', '~', '\x60', '[', ']'], Text.isBlank x = false := by decide
  exact hall c (by simpa [Lexer.isSymbolChar] using h)

theorem isSymbolChar_of_pair {c c' : Char} (h : (c, c') ∈ Lexer.symbolPairs) :
    Lexer.isSymbolChar c = true := by
  have hall : ∀ p ∈ Lexer.symbolPairs, Lexer.isSymbolChar p.1 = true := by decide
  exact hall _ h

theorem isSymbolChar_of_isQuoteChar {c : Char} (h : Lexer.isQuoteChar c = true) :
    Lexer.isSymbolChar c = true := by
  simp only [Lexer.isQuoteChar, Bool.or_eq_true, beq_iff_eq] at h
  rcases h with rfl | rfl <;> decide

theorem wordKind_ne_space (d : Dialect) (w : Text) : Lexer.wordKind d w ≠ .space := by
  rcases Lexer.wordKind_eq d w with hkind | hkind <;> simp [hkind]

/-- A lexeme is white space exactly when it starts with it. -/
theorem kind_eq_space_iff {d : Dialect} {c : Char} {cs : Text} {l : Lexer.Lexeme}
    (h : Lexer.Reads d c cs l) : l.kind = .space ↔ Text.isBlank c = true := by
  cases h with
  | space c cs blank => simp [blank]
  | number c cs digit => simp [isBlank_of_isDigit digit]
  | word c cs letter plain => simp [isBlank_of_isLetter letter, wordKind_ne_space]
  | command c cs line rest letter known => simp [isBlank_of_isLetter letter]
  | lineComment cs => simp [show Text.isBlank '-' = false by decide]
  | blockComment cs => simp [show Text.isBlank '/' = false by decide]
  | quoted c cs quote => simp [isBlank_of_isSymbolChar (isSymbolChar_of_isQuoteChar quote)]
  | single c cs symbol plain apart => simp [isBlank_of_isSymbolChar symbol]
  | pair c c' cs pair => simp [isBlank_of_isSymbolChar (isSymbolChar_of_pair pair)]

theorem text_of_reads {d : Dialect} {c : Char} {cs : Text} {l : Lexer.Lexeme}
    (h : Lexer.Reads d c cs l) : l.text.head? = some c := by
  cases h <;> rfl

/-- A token starts with a character that is white space exactly when the token is. -/
theorem exists_head_of_mem_tokenize {d : Dialect} {sql : Text} :
    ∀ t ∈ tokenize d sql, ∃ c, t.text.head? = some c ∧ Text.isBlank c = t.isSpace := by
  refine Lexer.forall_tokenizeFrom ?_ 0 sql
  intro c cs l hreads offset
  refine ⟨c, text_of_reads hreads, ?_⟩
  have hiff := kind_eq_space_iff hreads
  cases hblank : Text.isBlank c with
  | true => simp [Token.isSpace, hiff.mpr hblank]
  | false =>
    have hkind : l.kind ≠ .space := fun hspace => by simp [hiff.mp hspace] at hblank
    simp [Token.isSpace, hkind]

theorem gaps_tokenize (d : Dialect) (sql : Text) : Gaps (tokenize d sql) := by
  refine Lexer.forall_tokenizeFrom ?_ 0 sql
  intro c cs l hreads offset hspace
  obtain ⟨hblank, rfl⟩ := hreads.of_space (by simpa [Token.isSpace] using hspace)
  exact ⟨by simp, by simp [Text.allBlank, hblank]⟩

/-- White space is read as far as it goes, so two tokens of it never meet. -/
theorem spaced_tokenize (d : Dialect) (sql : Text) : Spaced (tokenize d sql) := by
  refine Lexer.isChain_tokenizeFrom ?_ 0 sql
  intro c cs l hreads c' cs' l' hrest hreads' offset offset' hspace
  obtain ⟨-, rfl⟩ := hreads.of_space (by simpa [Token.isSpace] using hspace)
  have hnext : Text.isBlank c' = false := eq_false_of_dropWhile hrest
  have hkind : l'.kind ≠ .space := fun hspace' => by
    simp [(kind_eq_space_iff hreads').mp hspace'] at hnext
  simp [Token.isSpace, hkind]

theorem isWord_takeWhile {c : Char} (letter : Lexer.isLetter c = true) (cs : Text) :
    Text.IsWord (c :: cs.takeWhile Lexer.isWordChar) := by
  refine ⟨⟨c, rfl, letter⟩, ?_⟩
  refine List.forall_mem_cons.mpr ⟨Text.isWordChar_of_isLetter letter, ?_⟩
  exact fun x hx => List.mem_takeWhile_imp hx

/-- Keywords are words. -/
theorem isWord_of_mem_tokenize {d : Dialect} {sql : Text} :
    ∀ t ∈ tokenize d sql, t.kind = .keyword → Text.IsWord t.text := by
  refine Lexer.forall_tokenizeFrom ?_ 0 sql
  intro c cs l hreads offset hkind
  obtain ⟨hletter, -, rfl⟩ := hreads.of_keyword hkind
  exact isWord_takeWhile hletter cs

/-- Keywords are known words of their dialect. -/
theorem classify_of_mem_tokenize {d : Dialect} {sql : Text} :
    ∀ t ∈ tokenize d sql, t.kind = .keyword → (d.classify t.text).isSome = true := by
  refine Lexer.forall_tokenizeFrom ?_ 0 sql
  intro c cs l hreads offset hkind
  obtain ⟨-, hknown, rfl⟩ := hreads.of_keyword hkind
  exact hknown

end SqlLayout.Layout
