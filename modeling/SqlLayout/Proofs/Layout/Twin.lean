import SqlLayout.Proofs.Layout.Move
import SqlLayout.Proofs.Token.Caseless

/-!
# Two runs side by side

Two runs of the layout, over two texts or in two styles, make the same decisions as long as their
tokens read alike.  A twin holds the tokens at one place of both runs.  Its two tokens are akin
(`Akin`) when they have one class and either are one gap, each written in its own style, or have
texts that differ by ASCII case only; whatever a pass asks of a token then has one answer for both
(`Akin.read`).  `TwinEdit` lists what a pass does to the two token lists at once.
-/

namespace SqlLayout.Layout

/-! ## The white space that the layout writes -/

/-- White space as the layout means it. -/
inductive Gap where
  | blank
  | line (level : Int)
  /-- A break that went behind a delimiter. -/
  | twice (g : Gap)

/-- The white space written in a style. -/
def Gap.write (s : Style) : Gap → Text
  | .blank => [' ']
  | .line level => s.lineBreak level
  | .twice g => g.write s ++ g.write s

/-- What a break in front of `t` writes. -/
def breakGap (level : Int) (t : Token) : Gap := if isLineComment t then .blank else .line level

theorem breakText_lineBreak (s : Style) (level : Int) (t : Token) :
    breakText (s.lineBreak level) t = (breakGap level t).write s := by
  unfold breakText breakGap
  split <;> rfl

theorem Gap.isGap_write (s : Style) (g : Gap) : IsGap (g.write s) := by
  induction g with
  | blank => exact isGap_blank
  | line level => exact isGap_lineBreak s level
  | twice g ih => exact ih.append ih

theorem Gap.allBlank_write (s : Style) (g : Gap) : Text.allBlank (g.write s) = true :=
  (g.isGap_write s).2

theorem lineBreak_eq (s : Style) (level : Int) : s.lineBreak level =
    '\n' :: List.replicate (level.toNat * s.indentSize) s.indentKind.char := by
  rw [Style.lineBreak, Style.indentUnit, List.flatten_replicate_replicate]

/-- Only the line break of the outermost level ends in its line feed. -/
theorem endsWith_lineBreak (s : Style) (level : Int) :
    Text.endsWith (s.lineBreak level) '\n' = (level.toNat == 0) := by
  rw [lineBreak_eq]
  cases hlevel : level.toNat with
  | zero => simp [Text.endsWith]
  | succ n =>
    have hsize : (n + 1) * s.indentSize ≠ 0 :=
      Nat.mul_ne_zero (Nat.succ_ne_zero n) s.indentSize_pos.ne'
    have hchar : s.indentKind.char ≠ '\n' := by cases s.indentKind <;> decide
    simp [Text.endsWith, List.getLast?_cons, List.getLast?_replicate, hsize, hchar]

theorem endsWith_append {b : Text} (hb : b ≠ []) (a : Text) (c : Char) :
    Text.endsWith (a ++ b) c = Text.endsWith b c := by
  rw [Text.endsWith, Text.endsWith, List.getLast?_append_of_ne_nil a hb]

/-- A gap ends in a line feed in every style or in none. -/
theorem Gap.endsWith_write (s s' : Style) (g : Gap) :
    Text.endsWith (g.write s') '\n' = Text.endsWith (g.write s) '\n' := by
  induction g with
  | blank => rfl
  | line level => exact (endsWith_lineBreak s' level).trans (endsWith_lineBreak s level).symm
  | twice g ih =>
    rw [write, write, endsWith_append (g.isGap_write s').1, endsWith_append (g.isGap_write s).1, ih]

/-! ## Delimiters -/

/-- A delimiter is not made of white space. -/
theorem isDelimiter_of_blank (s : Style) {text : Text} (h : Text.allBlank text = true) :
    s.isDelimiter text = false := by
  cases hdelimiter : s.isDelimiter text with
  | false => rfl
  | true =>
    have hlower : Text.asciiLower text = Text.asciiLower s.delimiter := by
      simpa [Style.isDelimiter, Text.sameAsciiCase] using hdelimiter
    have hblank : Text.allBlank s.delimiter = true := by
      rw [← Text.allBlank_asciiLower, ← hlower, Text.allBlank_asciiLower, h]
    have htrim : Text.trim s.delimiter = [] := by
      have hdrop : s.delimiter.dropWhile Text.isBlank = [] := by
        rw [List.dropWhile_eq_nil_iff]
        simpa [Text.allBlank] using hblank
      simp [Text.trim, Text.trimStart, Text.trimEnd, hdrop]
    rw [s.delimiter_trimmed] at htrim
    exact absurd htrim s.delimiter_nonempty

theorem isDelimiter_asciiLower (s : Style) (text : Text) :
    s.isDelimiter (Text.asciiLower text) = s.isDelimiter text := by
  rw [Style.isDelimiter, Style.isDelimiter, Text.sameAsciiCase, Text.sameAsciiCase,
    Text.asciiLower_asciiLower]

theorem isDelimiter_congr {s s' : Style} (h : s'.delimiter = s.delimiter) (text : Text) :
    s'.isDelimiter text = s.isDelimiter text := by
  rw [Style.isDelimiter, Style.isDelimiter, h]

theorem upper_of_allBlank {text : Text} (h : Text.allBlank text = true) : Text.upper text = text := by
  refine (Text.upper_eq_iff fun c hc => ?_).mpr rfl
  have hblank : Text.isBlank c = true := by
    rw [Text.allBlank, List.all_eq_true] at h
    exact h c hc
  simp [Lexer.isLetter, hblank]

/-! ## Twins -/

/-- The tokens at one place of two runs. -/
structure Twin where
  left : Token
  right : Token

/-- Two styles write the tokens of a twin alike. -/
structure Akin (s s' : Style) (z : Twin) : Prop where
  kind : z.right.kind = z.left.kind
  gap : z.left.isSpace = true → ∃ g : Gap, z.left.text = g.write s ∧ z.right.text = g.write s'
  word : z.left.isSpace = false → Text.asciiLower z.right.text = Text.asciiLower z.left.text
  solid : z.left.isSpace = false → Text.allBlank z.left.text = false

namespace Akin

variable {s s' : Style} {z : Twin}

theorem isSpace (h : Akin s s' z) : z.right.isSpace = z.left.isSpace := by
  rw [Token.isSpace, Token.isSpace, h.kind]

/-- What does not see ASCII case, nor the style in which a gap is written, is the same for both. -/
theorem read (h : Akin s s' z) {α : Type} {f : Text → α} (hcase : ∀ x, f (Text.asciiLower x) = f x)
    (hgap : ∀ g : Gap, f (g.write s') = f (g.write s)) : f z.right.text = f z.left.text := by
  cases hspace : z.left.isSpace with
  | true =>
    obtain ⟨g, hleft, hright⟩ := h.gap hspace
    rw [hleft, hright, hgap]
  | false => rw [← hcase, h.word hspace, hcase]

/-- What no white space has is the same for both. -/
theorem read_of_blank (h : Akin s s' z) {f : Text → Bool}
    (hcase : ∀ x, f (Text.asciiLower x) = f x) (hblank : ∀ x, Text.allBlank x = true → f x = false) :
    f z.right.text = f z.left.text :=
  h.read hcase fun g => by rw [hblank _ (g.allBlank_write s'), hblank _ (g.allBlank_write s)]

/-- What is said of a word does not see its ASCII case. -/
theorem read_word (h : Akin s s' z) (hz : z.left.isSpace = false) {α : Type} {f : Text → α}
    (hcase : ∀ x, f (Text.asciiLower x) = f x) : f z.right.text = f z.left.text := by
  rw [← hcase, h.word hz, hcase]

theorem upper (h : Akin s s' z) (hz : z.left.isSpace = false) :
    Text.upper z.right.text = Text.upper z.left.text :=
  h.read_word hz Text.upper_asciiLower

theorem isFunction (h : Akin s s' z) (hz : z.left.isSpace = false) (d : Dialect) :
    d.isFunction z.right.text = d.isFunction z.left.text :=
  h.read_word hz d.isFunction_asciiLower

theorem isBlank (h : Akin s s' z) : z.right.isBlank = z.left.isBlank :=
  h.read (f := Text.allBlank) Text.allBlank_asciiLower fun g => by
    rw [g.allBlank_write s', g.allBlank_write s]

theorem endsWith (h : Akin s s' z) :
    Text.endsWith z.right.text '\n' = Text.endsWith z.left.text '\n' :=
  h.read (f := (Text.endsWith · '\n')) (Text.endsWith_asciiLower (by decide)) (Gap.endsWith_write s s')

/-- A mark that has no letters is the text of both or of none. -/
theorem text_eq_iff (h : Akin s s' z) {w : Text} (hw : ∀ c ∈ w, Lexer.isLetter c = false)
    (hblank : Text.allBlank w = false) : z.right.text = w ↔ z.left.text = w := by
  have hread := h.read_of_blank (f := fun x => x == w) (fun x => by
    rw [Bool.eq_iff_iff, beq_iff_eq, beq_iff_eq, Text.asciiLower_eq_iff hw]) (fun x hx => by
    rw [beq_eq_false_iff_ne]
    rintro rfl
    rw [hx] at hblank
    cases hblank)
  rw [← beq_iff_eq, hread, beq_iff_eq]

theorem isSymbol (h : Akin s s' z) {w : Text} (hw : ∀ c ∈ w, Lexer.isLetter c = false)
    (hblank : Text.allBlank w = false) : z.right.isSymbol w = z.left.isSymbol w := by
  have htext : (z.right.text == w) = (z.left.text == w) := by
    rw [Bool.eq_iff_iff, beq_iff_eq, beq_iff_eq, h.text_eq_iff hw hblank]
  rw [Token.isSymbol, Token.isSymbol, h.kind, htext]

theorem startsWith (h : Akin s s' z) (c : Char) (hc : Lexer.isLetter c = false)
    (hblank : Text.isBlank c = false) :
    Text.startsWith z.right.text [c] = Text.startsWith z.left.text [c] := by
  refine h.read_of_blank (f := (Text.startsWith · [c])) (Text.startsWith_asciiLower (by simpa using hc)) ?_
  intro x hx
  cases x with
  | nil => rfl
  | cons a as =>
    rw [Text.allBlank_cons, Bool.and_eq_true] at hx
    have hne : (c == a) = false := by
      rw [beq_eq_false_iff_ne]
      rintro rfl
      rw [hblank] at hx
      cases hx.1
    show [c].isPrefixOf (a :: as) = false
    rw [List.isPrefixOf_cons_cons, hne, Bool.false_and]

theorem isLineComment (h : Akin s s' z) :
    Layout.isLineComment z.right = Layout.isLineComment z.left := by
  unfold Layout.isLineComment
  rw [h.kind]
  cases hkind : z.left.kind == .comment with
  | false => rfl
  | true =>
    have hvisible : z.left.isSpace = false := by
      rw [Token.isSpace, beq_iff_eq.mp hkind]
      rfl
    rw [h.read_word hvisible Dialect.isLineComment_asciiLower]

theorem isDelimiter (h : Akin s s' z) (hs : s'.delimiter = s.delimiter) :
    s'.isDelimiter z.right.text = s.isDelimiter z.left.text := by
  rw [isDelimiter_congr hs]
  exact h.read_of_blank (isDelimiter_asciiLower s) fun _ => isDelimiter_of_blank s

theorem isJoinWord (h : Akin s s' z) :
    Walk.isJoinWord z.right.text = Walk.isJoinWord z.left.text := by
  refine h.read_of_blank (fun x => ?_) fun x hx => ?_
  · simp [Walk.isJoinWord, Text.sameAsciiCase]
  · rw [Walk.isJoinWord, List.any_eq_false]
    intro w hw hsame
    have hblank : Text.allBlank w.toList = true := by
      rw [← Text.allBlank_asciiLower, ← beq_iff_eq.mp hsame, Text.allBlank_asciiLower, hx]
    have hjoin : ∀ w ∈ Walk.joinWords, Text.allBlank w.toList = false := by decide
    rw [hjoin w hw] at hblank
    cases hblank

end Akin

namespace Twin

/-- White space of both runs with another gap in it. -/
def withGap (s s' : Style) (g : Gap) (z : Twin) : Twin :=
  ⟨z.left.withText (g.write s), z.right.withText (g.write s')⟩

/-- A new gap in front of or behind `z`. -/
def newGap (s s' : Style) (g : Gap) (z : Twin) : Twin :=
  ⟨Token.space (g.write s) z.left.offset, Token.space (g.write s') z.right.offset⟩

/-- Both tokens without white space at the end of a line comment. -/
def settle (z : Twin) : Twin := ⟨Layout.settle z.left, Layout.settle z.right⟩

/-- Both tokens with the texts of others behind them. -/
def join (z : Twin) (zs : List Twin) : Twin :=
  ⟨z.left.withText (Token.concat ((z :: zs).map left)),
    z.right.withText (Token.concat ((z :: zs).map right))⟩

end Twin

theorem concat_map_cons (side : Twin → Token) (z : Twin) (zs : List Twin) :
    Token.concat ((z :: zs).map side) = (side z).text ++ Token.concat (zs.map side) := by
  simp [Token.concat]

namespace Akin

variable {s s' : Style} {z : Twin}

theorem withGap (h : Akin s s' z) (hz : z.left.isSpace = true) (g : Gap) :
    Akin s s' (z.withGap s s' g) := by
  have hspace : (z.withGap s s' g).left.isSpace = true := hz
  refine ⟨h.kind, fun _ => ⟨g, rfl, rfl⟩, ?_, ?_⟩ <;> simp [hspace]

theorem newGap (s s' : Style) (g : Gap) (z : Twin) : Akin s s' (z.newGap s s' g) := by
  have hspace : (z.newGap s s' g).left.isSpace = true := rfl
  refine ⟨rfl, fun _ => ⟨g, rfl, rfl⟩, ?_, ?_⟩ <;> simp [hspace]

theorem settle_cases (h : Akin s s' z) : z.settle = z ∨
    z.left.kind = .comment ∧ z.settle = ⟨z.left.withText (Text.trimEnd z.left.text),
      z.right.withText (Text.trimEnd z.right.text)⟩ := by
  unfold Twin.settle Layout.settle
  rw [h.isLineComment]
  split
  · next hline => exact .inr ⟨kind_of_isLineComment hline, rfl⟩
  · exact .inl rfl

theorem settle (h : Akin s s' z) : Akin s s' z.settle := by
  rcases h.settle_cases with hsame | ⟨hkind, htrim⟩
  · rw [hsame]
    exact h
  · have hvisible : z.left.isSpace = false := by simp [Token.isSpace, hkind]
    rw [htrim]
    refine ⟨h.kind, fun hspace => ?_, fun _ => ?_, fun _ => ?_⟩
    · have hsame : (z.left.withText (Text.trimEnd z.left.text)).isSpace = z.left.isSpace := rfl
      rw [hsame, hvisible] at hspace
      cases hspace
    · show Text.asciiLower (Text.trimEnd _) = Text.asciiLower (Text.trimEnd _)
      rw [← Text.trimEnd_asciiLower, ← Text.trimEnd_asciiLower, h.word hvisible]
    · exact (Text.allBlank_trimEnd _).trans (h.solid hvisible)

end Akin

/-! ## Edits of both runs -/

/-- One change of two token lists at the same place.  Joining puts the texts of neighbours into one
token, so what the lists read is the same as before. -/
inductive TwinEdit (s s' : Style) : List Twin → List Twin → Prop
  | retext (l r : List Twin) (z : Twin) (g : Gap) (space : z.left.isSpace = true) :
      TwinEdit s s' (l ++ z :: r) (l ++ z.withGap s s' g :: r)
  | insert (l r : List Twin) (z : Twin) (g : Gap) :
      TwinEdit s s' (l ++ r) (l ++ z.newGap s s' g :: r)
  | settle (l r : List Twin) (z : Twin) : TwinEdit s s' (l ++ z :: r) (l ++ z.settle :: r)
  | drop (l r : List Twin) (z : Twin) (space : z.left.isSpace = true) :
      TwinEdit s s' (l ++ z :: r) (l ++ r)
  | join (l r : List Twin) (z : Twin) (zs : List Twin) (visible : z.left.isSpace = false)
      (plain : z.left.kind ≠ .comment) : TwinEdit s s' (l ++ z :: (zs ++ r)) (l ++ z.join zs :: r)

/-- Any number of changes. -/
def TwinEdits (s s' : Style) : List Twin → List Twin → Prop := Relation.ReflTransGen (TwinEdit s s')

namespace TwinEdits

variable {s s' : Style} {a b c : List Twin}

theorem refl (zs : List Twin) : TwinEdits s s' zs zs := Relation.ReflTransGen.refl

theorem trans (hab : TwinEdits s s' a b) (hbc : TwinEdits s s' b c) : TwinEdits s s' a c :=
  Relation.ReflTransGen.trans hab hbc

theorem single (h : TwinEdit s s' a b) : TwinEdits s s' a b := Relation.ReflTransGen.single h

/-- A property that every change keeps is kept by any number of them. -/
theorem preserves {P : List Twin → Prop} (step : ∀ {a b : List Twin}, TwinEdit s s' a b → P a → P b)
    (h : TwinEdits s s' a b) (ha : P a) : P b := by
  induction h with
  | refl => exact ha
  | tail _ hedit ih => exact step hedit ih

end TwinEdits

theorem TwinEdit.append_left {s s' : Style} {a b : List Twin} (front : List Twin)
    (h : TwinEdit s s' a b) : TwinEdit s s' (front ++ a) (front ++ b) := by
  cases h with
  | retext l r z g space =>
    simpa only [List.append_assoc] using TwinEdit.retext (front ++ l) r z g space
  | insert l r z g => simpa only [List.append_assoc] using TwinEdit.insert (front ++ l) r z g
  | settle l r z => simpa only [List.append_assoc] using TwinEdit.settle (front ++ l) r z
  | drop l r z space => simpa only [List.append_assoc] using TwinEdit.drop (front ++ l) r z space
  | join l r z zs visible plain =>
    simpa only [List.append_assoc] using TwinEdit.join (front ++ l) r z zs visible plain

theorem TwinEdits.append_left {s s' : Style} {a b : List Twin} (front : List Twin)
    (h : TwinEdits s s' a b) : TwinEdits s s' (front ++ a) (front ++ b) :=
  Relation.ReflTransGen.lift (front ++ ·) (fun _ _ => TwinEdit.append_left front) _ _ h

theorem TwinEdits.cons {s s' : Style} {a b : List Twin} (z : Twin) (h : TwinEdits s s' a b) :
    TwinEdits s s' (z :: a) (z :: b) := h.append_left [z]

end SqlLayout.Layout
