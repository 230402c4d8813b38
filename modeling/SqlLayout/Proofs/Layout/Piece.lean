import Mathlib.Data.List.Chain
import SqlLayout.Token

/-!
# Pieces of a token list

A piece is a token that is not white space together with the white space in front of it.  A token
list that does not end in white space is its pieces written one after the other (`render_ofTokens`),
so statements about what stands between two tokens are statements about the gaps of pieces.
-/

namespace SqlLayout

/-- The tokens that are not white space. -/
def Token.visible (ts : List Token) : List Token := ts.filter fun t => !t.isSpace

/-- A token that is not white space, behind the white space `gap`. -/
structure Piece where
  gap : Text
  token : Token
  deriving DecidableEq, Repr

namespace Piece

/-- The pieces of a list that follows the white space `gap`; white space at the end is dropped. -/
def ofTokensAfter (gap : Text) : List Token → List Piece
  | [] => []
  | t :: ts =>
    if t.isSpace then ofTokensAfter (gap ++ t.text) ts else ⟨gap, t⟩ :: ofTokensAfter [] ts

/-- The pieces of a token list. -/
def ofTokens (ts : List Token) : List Piece := ofTokensAfter [] ts

/-- The pieces written one after the other. -/
def render (ps : List Piece) : Text := ps.flatMap fun p => p.gap ++ p.token.text

@[simp] theorem render_nil : render [] = [] := rfl

@[simp] theorem render_cons (p : Piece) (ps : List Piece) :
    render (p :: ps) = p.gap ++ (p.token.text ++ render ps) := by
  simp [render]

theorem ofTokensAfter_space {t : Token} (h : t.isSpace = true) (gap : Text) (ts : List Token) :
    ofTokensAfter gap (t :: ts) = ofTokensAfter (gap ++ t.text) ts := by
  simp [ofTokensAfter, h]

theorem ofTokensAfter_visible {t : Token} (h : t.isSpace = false) (gap : Text) (ts : List Token) :
    ofTokensAfter gap (t :: ts) = ⟨gap, t⟩ :: ofTokensAfter [] ts := by
  simp [ofTokensAfter, h]

/-- The pieces carry the tokens that are not white space. -/
theorem map_token_ofTokensAfter (gap : Text) (ts : List Token) :
    (ofTokensAfter gap ts).map token = Token.visible ts := by
  induction ts generalizing gap with
  | nil => rfl
  | cons t ts ih =>
    cases h : t.isSpace with
    | true => simpa [ofTokensAfter_space h, Token.visible, h] using ih (gap ++ t.text)
    | false => simpa [ofTokensAfter_visible h, Token.visible, h] using ih []

/-- Only white space at the end of a list is missing from its pieces. -/
theorem render_ofTokensAfter (gap : Text) (ts : List Token) (last : Token)
    (hlast : ts.getLast? = some last) (hvisible : last.isSpace = false) :
    render (ofTokensAfter gap ts) = gap ++ Token.concat ts := by
  induction ts generalizing gap with
  | nil => simp at hlast
  | cons t ts ih =>
    cases h : t.isSpace with
    | true =>
      rw [ofTokensAfter_space h]
      cases ts with
      | nil =>
        have hsame : t = last := by simpa using hlast
        rw [hsame, hvisible] at h
        cases h
      | cons t' ts' =>
        rw [ih (gap ++ t.text) (by simpa using hlast)]
        simp [Token.concat]
    | false =>
      rw [ofTokensAfter_visible h, render_cons]
      cases ts with
      | nil => simp [ofTokensAfter, Token.concat]
      | cons t' ts' =>
        rw [ih [] (by simpa using hlast)]
        simp [Token.concat]

theorem render_ofTokens (ts : List Token) (hlast : ∀ t ∈ ts.getLast?, t.isSpace = false) :
    render (ofTokens ts) = Token.concat ts := by
  cases h : ts.getLast? with
  | none =>
    rw [List.getLast?_eq_none_iff.mp h]
    rfl
  | some last => exact render_ofTokensAfter [] ts last h (hlast last (by simp [h]))

/-- The gaps are white space when the white space tokens are. -/
theorem allBlank_gap (gap : Text) (ts : List Token) (hgap : Text.allBlank gap = true)
    (hts : ∀ t ∈ ts, t.isSpace = true → Text.allBlank t.text = true) :
    ∀ p ∈ ofTokensAfter gap ts, Text.allBlank p.gap = true := by
  induction ts generalizing gap with
  | nil => simp [ofTokensAfter]
  | cons t ts ih =>
    have hrest : ∀ u ∈ ts, u.isSpace = true → Text.allBlank u.text = true :=
      fun u hu => hts u (by simp [hu])
    cases h : t.isSpace with
    | true =>
      rw [ofTokensAfter_space h]
      refine ih _ ?_ hrest
      simpa [Text.allBlank] using And.intro (by simpa [Text.allBlank] using hgap)
        (by simpa [Text.allBlank] using hts t (by simp) h)
    | false =>
      rw [ofTokensAfter_visible h]
      intro p hp
      rcases List.mem_cons.mp hp with rfl | hp
      · exact hgap
      · exact ih [] rfl hrest p hp

/-- A list that does not start with white space has nothing in front of its first piece. -/
theorem head?_gap (ts : List Token) (hfirst : ∀ t ∈ ts.head?, t.isSpace = false) :
    ∀ p ∈ (ofTokens ts).head?, p.gap = [] := by
  cases ts with
  | nil => simp [ofTokens, ofTokensAfter]
  | cons t ts =>
    rw [ofTokens, ofTokensAfter_visible (hfirst t (by simp))]
    simp

end Piece

end SqlLayout
