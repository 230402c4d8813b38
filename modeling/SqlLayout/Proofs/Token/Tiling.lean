import SqlLayout.Proofs.Token.Tokens

/-!
# The tokens tile their text

The tokens of a text concatenate to it, none of them is empty, and each one starts behind as many
bytes of UTF-8 as the tokens in front of it take.  So every offset lies between two characters.
-/

namespace SqlLayout

theorem Text.byteSize_append (s t : Text) :
    Text.byteSize (s ++ t) = Text.byteSize s + Text.byteSize t := by
  induction s with
  | nil => simp [Text.byteSize]
  | cons c cs ih =>
    simp only [List.cons_append, Text.byteSize, ih]
    omega

/-- The bytes of a text are those of the string with its characters. -/
theorem Text.utf8ByteSize_ofList (s : Text) : (String.ofList s).utf8ByteSize = Text.byteSize s := by
  induction s with
  | nil => rfl
  | cons c cs ih =>
    rw [String.ofList_cons, String.utf8ByteSize_append, ih, Text.byteSize]
    simp

/-- What stands in front of a cut of a text ends at a character boundary of the whole. -/
theorem Text.isValid_byteSize (s t : Text) :
    String.Pos.Raw.IsValid (String.ofList (s ++ t)) ⟨Text.byteSize s⟩ := by
  rw [String.Pos.Raw.isValid_iff_exists_append]
  refine ⟨String.ofList s, String.ofList t, String.ofList_append, ?_⟩
  rw [← Text.utf8ByteSize_ofList]
  rfl

theorem Token.concat_append (a b : List Token) :
    Token.concat (a ++ b) = Token.concat a ++ Token.concat b := by
  simp [Token.concat]

namespace Lexer

/-- Every token is the lexeme at its place, where the tokens in front of it end, and those behind it
are the tokens of the rest. -/
theorem exists_lexeme_of_split {d : Dialect} {offset : Nat} {s : Text} {front back : List Token}
    {t : Token} (h : tokenizeFrom d offset s = front ++ t :: back) :
    ∃ c cs, t = ⟨(lexeme d c cs).kind, (lexeme d c cs).text,
        offset + Text.byteSize (Token.concat front)⟩ ∧
      back = tokenizeFrom d (t.offset + Text.byteSize t.text) (lexeme d c cs).rest := by
  induction front generalizing offset s with
  | nil =>
    cases s with
    | nil => simp [tokenizeFrom] at h
    | cons c cs =>
      rw [tokenizeFrom_cons] at h
      obtain ⟨rfl, rfl⟩ := List.cons.inj h
      exact ⟨c, cs, rfl, rfl⟩
  | cons a front ih =>
    cases s with
    | nil => simp [tokenizeFrom] at h
    | cons c cs =>
      rw [tokenizeFrom_cons] at h
      obtain ⟨rfl, hrest⟩ := List.cons.inj h
      have hconcat : Text.byteSize (Token.concat (⟨(lexeme d c cs).kind, (lexeme d c cs).text, offset⟩ ::
          front)) = Text.byteSize (lexeme d c cs).text + Text.byteSize (Token.concat front) := by
        rw [Token.concat, List.flatMap_cons, Text.byteSize_append, ← Token.concat]
      rw [hconcat, ← Nat.add_assoc]
      exact ih hrest

/-- A token starts where the tokens in front of it end. -/
theorem offset_tokenizeFrom {d : Dialect} {offset : Nat} {s : Text} {front back : List Token}
    {t : Token} (h : tokenizeFrom d offset s = front ++ t :: back) :
    t.offset = offset + Text.byteSize (Token.concat front) := by
  obtain ⟨c, cs, rfl, -⟩ := exists_lexeme_of_split h
  rfl

end Lexer

/-- Under every dialect the tokens of a text tile it: one after the other they are the text, none
is empty, each starts at the byte where those in front of it end, which is a character boundary,
and no two tokens in a row are white space. -/
theorem tokenize_tiles (d : Dialect) (sql : Text) :
    Token.concat (tokenize d sql) = sql ∧
    (∀ t ∈ tokenize d sql, t.text ≠ []) ∧
    (∀ front t back, tokenize d sql = front ++ t :: back →
      t.offset = (String.ofList (Token.concat front)).utf8ByteSize ∧
        String.Pos.Raw.IsValid (String.ofList sql) ⟨t.offset⟩) ∧
    (tokenize d sql).IsChain fun p t => ¬ (p.kind = .space ∧ t.kind = .space) := by
  have hconcat : Token.concat (tokenize d sql) = sql := Lexer.concat_tokenizeFrom d 0 sql
  refine ⟨hconcat, ?_, ?_, ?_⟩
  · intro t ht hnil
    obtain ⟨c, hc, -⟩ := Layout.exists_head_of_mem_tokenize t ht
    simp [hnil] at hc
  · intro front t back hsplit
    have hoffset : t.offset = Text.byteSize (Token.concat front) := by
      rw [Lexer.offset_tokenizeFrom hsplit, Nat.zero_add]
    have hsql : sql = Token.concat front ++ Token.concat (t :: back) := by
      rw [← Token.concat_append, ← hsplit, hconcat]
    refine ⟨by rw [hoffset, Text.utf8ByteSize_ofList], ?_⟩
    rw [hoffset, hsql]
    exact Text.isValid_byteSize _ _
  · refine (Layout.spaced_tokenize d sql).imp ?_
    intro p t hspaced ⟨hp, ht⟩
    have hvisible := hspaced (by simp [Token.isSpace, hp])
    simp [Token.isSpace, ht] at hvisible

end SqlLayout
