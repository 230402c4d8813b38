import Mathlib.Data.List.Forall2
import Mathlib.Logic.Relation
import SqlLayout.Layout.Passes
import SqlLayout.Layout.Walk
import SqlLayout.Proofs.Layout.Piece
import SqlLayout.Proofs.Text.Blank

/-!
# Edits of white space

Every pass of the layout that leaves the tokens apart changes white space only, in one of five ways
(`Edit`): a white space token gets another text, one is put between two neighbours, one is dropped
next to a symbol or a comment, or a line comment loses the white space at its end.  What a layout
keeps is read off these five cases, whatever order the passes and the walk make them in.
-/

namespace SqlLayout.Layout

/-- White space that may stand between two tokens. -/
def IsGap (g : Text) : Prop := g ≠ [] ∧ Text.allBlank g = true

/-- Two symbols that open a comment when they stand next to each other. -/
def opensComment (p t : Token) : Bool :=
  p.isSymbol ['-'] && t.isSymbol ['-'] || p.isSymbol ['/'] && t.isSymbol ['*']

/-- One change of the white space of a token list. -/
inductive Edit (s : Style) : List Token → List Token → Prop
  | retext (l r : List Token) (t : Token) (g : Text) (space : t.isSpace = true) (gap : IsGap g) :
      Edit s (l ++ t :: r) (l ++ t.withText g :: r)
  | insert (l r : List Token) (p t : Token) (g : Text) (offset : Nat) (gap : IsGap g)
      (apart : opensComment p t = true → s.isDelimiter p.text = true) :
      Edit s (l ++ p :: t :: r) (l ++ p :: Token.space g offset :: t :: r)
  | settle (l r : List Token) (t : Token) : Edit s (l ++ t :: r) (l ++ Layout.settle t :: r)
  | dropAfter (l r : List Token) (p t : Token) (absorbs : absorbsSpace p = true)
      (space : t.isSpace = true) : Edit s (l ++ p :: t :: r) (l ++ p :: r)
  | dropBefore (l r : List Token) (t n : Token) (space : t.isSpace = true)
      (absorbs : absorbsSpace n = true) : Edit s (l ++ t :: n :: r) (l ++ n :: r)

/-- Any number of edits. -/
def Edits (s : Style) : List Token → List Token → Prop := Relation.ReflTransGen (Edit s)

namespace Edits

theorem refl {s : Style} (ts : List Token) : Edits s ts ts := Relation.ReflTransGen.refl

theorem trans {s : Style} {a b c : List Token} (hab : Edits s a b) (hbc : Edits s b c) :
    Edits s a c := Relation.ReflTransGen.trans hab hbc

theorem single {s : Style} {a b : List Token} (h : Edit s a b) : Edits s a b :=
  Relation.ReflTransGen.single h

/-- A property that every edit keeps is kept by any number of them. -/
theorem preserves {s : Style} {P : List Token → Prop}
    (step : ∀ {a b : List Token}, Edit s a b → P a → P b) {a b : List Token}
    (h : Edits s a b) (ha : P a) : P b := by
  induction h with
  | refl => exact ha
  | tail _ hedit ih => exact step hedit ih

end Edits

theorem Edit.append_left {s : Style} {a b : List Token} (front : List Token) (h : Edit s a b) :
    Edit s (front ++ a) (front ++ b) := by
  cases h with
  | retext l r t g space gap =>
    simpa only [List.append_assoc] using Edit.retext (front ++ l) r t g space gap
  | insert l r p t g offset gap apart =>
    simpa only [List.append_assoc] using Edit.insert (front ++ l) r p t g offset gap apart
  | settle l r t => simpa only [List.append_assoc] using Edit.settle (front ++ l) r t
  | dropAfter l r p t absorbs space =>
    simpa only [List.append_assoc] using Edit.dropAfter (front ++ l) r p t absorbs space
  | dropBefore l r t n space absorbs =>
    simpa only [List.append_assoc] using Edit.dropBefore (front ++ l) r t n space absorbs

theorem Edits.append_left {s : Style} {a b : List Token} (front : List Token) (h : Edits s a b) :
    Edits s (front ++ a) (front ++ b) :=
  Relation.ReflTransGen.lift (front ++ ·) (fun _ _ => Edit.append_left front) _ _ h

theorem Edits.cons {s : Style} {a b : List Token} (t : Token) (h : Edits s a b) :
    Edits s (t :: a) (t :: b) := h.append_left [t]

/-! ## Texts of breaks -/

theorem isGap_blank : IsGap [' '] := ⟨by decide, by decide⟩

theorem IsGap.append {g g' : Text} (h : IsGap g) (h' : IsGap g') : IsGap (g ++ g') :=
  ⟨by simp [h.1], by rw [Text.allBlank_append, h.2, h'.2]; rfl⟩

theorem allBlank_indentUnit (s : Style) : Text.allBlank s.indentUnit = true := by
  have hchar : Text.isBlank s.indentKind.char = true := by
    cases s.indentKind <;> decide
  simp [Text.allBlank, Style.indentUnit, hchar]

/-- A line break is white space. -/
theorem isGap_lineBreak (s : Style) (level : Int) : IsGap (s.lineBreak level) := by
  refine ⟨by simp [Style.lineBreak], ?_⟩
  have hunit := allBlank_indentUnit s
  have hnewline : Text.isBlank '\n' = true := by decide
  simp only [Text.allBlank, List.all_eq_true] at hunit
  simp only [Text.allBlank, Style.lineBreak, List.all_cons, hnewline, Bool.true_and,
    List.all_eq_true, List.mem_flatten, List.mem_replicate]
  rintro c ⟨unit, ⟨-, rfl⟩, hc⟩
  exact hunit c hc

theorem isGap_breakText {line : Text} (h : IsGap line) (t : Token) : IsGap (breakText line t) := by
  unfold breakText
  split
  · exact isGap_blank
  · exact h

/-! ## What edits keep -/

/-- A token with its line comment end as it was, or without white space there. -/
def Settles (t t' : Token) : Prop := t' = t ∨ t' = settle t

theorem settle_settle (t : Token) : settle (settle t) = settle t := by
  by_cases h : isLineComment t = true
  · unfold settle
    rw [if_pos h]
    split
    · simp only [Token.withText, Text.trimEnd_trimEnd]
    · rfl
  · simp [settle, h]

theorem isSpace_settle (t : Token) : (settle t).isSpace = t.isSpace := by
  unfold settle
  split <;> rfl

theorem kind_settle (t : Token) : (settle t).kind = t.kind := by
  unfold settle
  split <;> rfl

theorem settle_of_isSpace {t : Token} (h : t.isSpace = true) : settle t = t := by
  cases t with
  | mk kind text offset => cases kind <;> simp_all [Token.isSpace, settle, isLineComment]

theorem settle_of_kind_ne {t : Token} (h : t.kind ≠ .comment) : settle t = t := by
  simp [settle, isLineComment, h]

theorem Settles.trans {a b c : Token} (hab : Settles a b) (hbc : Settles b c) : Settles a c := by
  rcases hab with rfl | rfl
  · exact hbc
  · rcases hbc with rfl | rfl
    · exact .inr rfl
    · exact .inr (settle_settle a)

theorem visible_append (a b : List Token) :
    Token.visible (a ++ b) = Token.visible a ++ Token.visible b := by
  simp [Token.visible]

theorem visible_cons_space {t : Token} (h : t.isSpace = true) (ts : List Token) :
    Token.visible (t :: ts) = Token.visible ts := by
  simp [Token.visible, h]

theorem visible_cons {t : Token} (h : t.isSpace = false) (ts : List Token) :
    Token.visible (t :: ts) = t :: Token.visible ts := by
  simp [Token.visible, h]

theorem forall₂_settles_refl (ts : List Token) : List.Forall₂ Settles ts ts :=
  List.forall₂_same.mpr fun _ _ => .inl rfl

/-- Lists that are related through a third are related. -/
theorem forall₂_trans {α β γ : Type} {R : α → β → Prop} {S : β → γ → Prop} {T : α → γ → Prop}
    {a : List α} {b : List β} {c : List γ} (hab : List.Forall₂ R a b) (hbc : List.Forall₂ S b c)
    (hstep : ∀ x y z, R x y → S y z → T x z) : List.Forall₂ T a c := by
  induction hab generalizing c with
  | nil =>
    cases hbc
    exact .nil
  | cons h _ ih =>
    cases hbc with
    | cons h' hbc => exact .cons (hstep _ _ _ h h') (ih hbc)

theorem forall₂_settles_trans {a b c : List Token} (hab : List.Forall₂ Settles a b)
    (hbc : List.Forall₂ Settles b c) : List.Forall₂ Settles a c :=
  forall₂_trans hab hbc fun _ _ _ => Settles.trans

/-- An edit leaves the tokens that are not white space in place, up to the end of a comment. -/
theorem Edit.visible {s : Style} {a b : List Token} (h : Edit s a b) :
    List.Forall₂ Settles (Token.visible a) (Token.visible b) := by
  cases h with
  | retext l r t g space gap =>
    have hnew : (t.withText g).isSpace = true := space
    rw [visible_append, visible_append, visible_cons_space space, visible_cons_space hnew]
    exact forall₂_settles_refl _
  | insert l r p t g offset gap apart =>
    have hnew : (Token.space g offset).isSpace = true := rfl
    have hlist : Token.visible (p :: Token.space g offset :: t :: r) =
        Token.visible (p :: t :: r) := by
      simp [Token.visible, List.filter_cons, hnew]
    rw [visible_append, visible_append, hlist]
    exact forall₂_settles_refl _
  | settle l r t =>
    rw [visible_append, visible_append]
    refine List.rel_append (forall₂_settles_refl _) ?_
    cases hspace : t.isSpace with
    | true =>
      rw [visible_cons_space hspace, visible_cons_space ((isSpace_settle t).trans hspace)]
      exact forall₂_settles_refl _
    | false =>
      rw [visible_cons hspace, visible_cons ((isSpace_settle t).trans hspace)]
      exact .cons (.inr rfl) (forall₂_settles_refl _)
  | dropAfter l r p t absorbs space =>
    have hlist : Token.visible (p :: t :: r) = Token.visible (p :: r) := by
      simp [Token.visible, List.filter_cons, space]
    rw [visible_append, visible_append, hlist]
    exact forall₂_settles_refl _
  | dropBefore l r t n space absorbs =>
    rw [visible_append, visible_append, visible_cons_space space]
    exact forall₂_settles_refl _

theorem Edits.visible {s : Style} {a b : List Token} (h : Edits s a b) :
    List.Forall₂ Settles (Token.visible a) (Token.visible b) := by
  induction h with
  | refl => exact forall₂_settles_refl _
  | tail _ hedit ih => exact forall₂_settles_trans ih hedit.visible

/-- White space tokens hold white space, and some of it. -/
def Gaps (ts : List Token) : Prop := ∀ t ∈ ts, t.isSpace = true → IsGap t.text

/-- Tokens that are not white space by class do not look like it. -/
def Solid (ts : List Token) : Prop := ∀ t ∈ ts, t.isSpace = false → Text.allBlank t.text = false

/-- No white space at either end. -/
def Framed (ts : List Token) : Prop :=
  (∀ t ∈ ts.head?, t.isSpace = false) ∧ ∀ t ∈ ts.getLast?, t.isSpace = false

/-- Neighbours of which neither is white space, a symbol or a comment are related by `M`. -/
def Touching (M : Token → Token → Prop) (ts : List Token) : Prop :=
  ts.IsChain fun p t => p.isSpace = true ∨ t.isSpace = true ∨ absorbsSpace p = true ∨
    absorbsSpace t = true ∨ M p t

theorem isSpace_of_absorbsSpace {t : Token} (h : absorbsSpace t = true) : t.isSpace = false := by
  cases t with
  | mk kind text offset => cases kind <;> simp_all [absorbsSpace, Token.isSpace]

theorem allBlank_settle_text (t : Token) :
    Text.allBlank (settle t).text = Text.allBlank t.text := by
  unfold settle
  split
  · exact Text.allBlank_trimEnd t.text
  · rfl

theorem Edit.gaps {s : Style} {a b : List Token} (h : Edit s a b) (ha : Gaps a) : Gaps b := by
  cases h with
  | retext l r t g space gap =>
    simp only [Gaps, List.forall_mem_append, List.forall_mem_cons] at ha ⊢
    exact ⟨ha.1, fun _ => gap, ha.2.2⟩
  | insert l r p t g offset gap apart =>
    simp only [Gaps, List.forall_mem_append, List.forall_mem_cons] at ha ⊢
    exact ⟨ha.1, ha.2.1, fun _ => gap, ha.2.2⟩
  | settle l r t =>
    simp only [Gaps, List.forall_mem_append, List.forall_mem_cons] at ha ⊢
    refine ⟨ha.1, fun hspace => ?_, ha.2.2⟩
    rw [isSpace_settle] at hspace
    rw [settle_of_isSpace hspace]
    exact ha.2.1 hspace
  | dropAfter l r p t absorbs space =>
    simp only [Gaps, List.forall_mem_append, List.forall_mem_cons] at ha ⊢
    exact ⟨ha.1, ha.2.1, ha.2.2.2⟩
  | dropBefore l r t n space absorbs =>
    simp only [Gaps, List.forall_mem_append, List.forall_mem_cons] at ha ⊢
    exact ⟨ha.1, ha.2.2⟩

theorem Edit.solid {s : Style} {a b : List Token} (h : Edit s a b) (ha : Solid a) : Solid b := by
  cases h with
  | retext l r t g space gap =>
    simp only [Solid, List.forall_mem_append, List.forall_mem_cons] at ha ⊢
    refine ⟨ha.1, fun hvisible => ?_, ha.2.2⟩
    have hspace : (t.withText g).isSpace = true := space
    simp [hspace] at hvisible
  | insert l r p t g offset gap apart =>
    simp only [Solid, List.forall_mem_append, List.forall_mem_cons] at ha ⊢
    refine ⟨ha.1, ha.2.1, fun hvisible => ?_, ha.2.2⟩
    have hspace : (Token.space g offset).isSpace = true := rfl
    simp [hspace] at hvisible
  | settle l r t =>
    simp only [Solid, List.forall_mem_append, List.forall_mem_cons] at ha ⊢
    refine ⟨ha.1, fun hvisible => ?_, ha.2.2⟩
    rw [isSpace_settle] at hvisible
    rw [allBlank_settle_text]
    exact ha.2.1 hvisible
  | dropAfter l r p t absorbs space =>
    simp only [Solid, List.forall_mem_append, List.forall_mem_cons] at ha ⊢
    exact ⟨ha.1, ha.2.1, ha.2.2.2⟩
  | dropBefore l r t n space absorbs =>
    simp only [Solid, List.forall_mem_append, List.forall_mem_cons] at ha ⊢
    exact ⟨ha.1, ha.2.2⟩

theorem Edit.framed {s : Style} {a b : List Token} (h : Edit s a b) (ha : Framed a) :
    Framed b := by
  obtain ⟨hfirst, hlast⟩ := ha
  cases h with
  | retext l r t g space gap =>
    have hkeep : (t.withText g).isSpace = t.isSpace := rfl
    refine ⟨?_, ?_⟩
    · cases l with
      | nil => simpa [hkeep] using hfirst
      | cons => simpa using hfirst
    · cases r with
      | nil => simpa [hkeep] using hlast
      | cons => simpa [List.getLast?_append] using hlast
  | insert l r p t g offset gap apart =>
    refine ⟨?_, ?_⟩
    · cases l with
      | nil => simpa using hfirst
      | cons => simpa using hfirst
    · simpa [List.getLast?_append] using hlast
  | settle l r t =>
    refine ⟨?_, ?_⟩
    · cases l with
      | nil => simpa [isSpace_settle] using hfirst
      | cons => simpa using hfirst
    · cases r with
      | nil => simpa [isSpace_settle] using hlast
      | cons => simpa [List.getLast?_append] using hlast
  | dropAfter l r p t absorbs space =>
    refine ⟨?_, ?_⟩
    · cases l with
      | nil => simpa using hfirst
      | cons => simpa using hfirst
    · cases r with
      | nil => simpa using isSpace_of_absorbsSpace absorbs
      | cons => simpa [List.getLast?_append] using hlast
  | dropBefore l r t n space absorbs =>
    refine ⟨?_, ?_⟩
    · cases l with
      | nil => simpa using isSpace_of_absorbsSpace absorbs
      | cons => simpa using hfirst
    · simpa [List.getLast?_append] using hlast

theorem isChain_replace {R : Token → Token → Prop} {l r : List Token} {c c' : Token}
    (hbefore : ∀ x, R x c → R x c') (hafter : ∀ y, R c y → R c' y)
    (h : (l ++ c :: r).IsChain R) : (l ++ c' :: r).IsChain R := by
  rw [List.isChain_append, List.isChain_cons] at h ⊢
  obtain ⟨hl, ⟨hc, hr⟩, hjoin⟩ := h
  refine ⟨hl, ⟨fun y hy => hafter y (hc y hy), hr⟩, ?_⟩
  intro x hx y hy
  obtain rfl : c' = y := by simpa using hy
  exact hbefore x (hjoin x hx c (by simp))

/-- An edit relates no new neighbours except through white space, a symbol or a comment. -/
theorem Edit.touching {s : Style} {M : Token → Token → Prop} {a b : List Token} (h : Edit s a b)
    (ha : Touching M a) : Touching M b := by
  unfold Touching at *
  cases h with
  | retext l r t g space gap =>
    have hspace : (t.withText g).isSpace = true := space
    exact isChain_replace (fun _ _ => .inr (.inl hspace)) (fun _ _ => .inl hspace) ha
  | insert l r p t g offset gap apart =>
    have hspace : (Token.space g offset).isSpace = true := rfl
    rw [List.isChain_append_cons_cons] at ha ⊢
    exact ⟨ha.1, .inr (.inl hspace), List.isChain_cons_cons.mpr ⟨.inl hspace, ha.2.2⟩⟩
  | settle l r t =>
    by_cases hcomment : t.kind = .comment
    · have habsorbs : absorbsSpace (Layout.settle t) = true := by
        simp [absorbsSpace, kind_settle, hcomment]
      exact isChain_replace (fun _ _ => .inr (.inr (.inr (.inl habsorbs))))
        (fun _ _ => .inr (.inr (.inl habsorbs))) ha
    · rw [settle_of_kind_ne hcomment]
      exact ha
  | dropAfter l r p t absorbs space =>
    rw [List.isChain_split] at ha ⊢
    refine ⟨ha.1, List.isChain_cons.mpr ⟨?_, ha.2.tail.tail⟩⟩
    exact fun _ _ => .inr (.inr (.inl absorbs))
  | dropBefore l r t n space absorbs =>
    rw [List.isChain_append] at ha ⊢
    exact ⟨ha.1, ha.2.1.tail, fun _ _ y hy => .inr (.inr (.inr (.inl (by simp_all))))⟩

end SqlLayout.Layout
