import SqlLayout.Proofs.Text.Blank
import SqlLayout.Style

/-!
# Making styles

A style is made from its settings when its indent size is positive and its delimiter is not blank,
and it has these settings, the delimiter without the white space around it (`make_eq_ok_iff`).  A
style that was made once is made again from its own settings (`make_self`), so that laying choices
over it is refused for the choices only (`exists_overlay_iff`).
-/

namespace SqlLayout.Style

/-- Whether a style can have this indent size and this delimiter. -/
def Accepts (indentSize : Nat) (delimiter : Text) : Prop :=
  0 < indentSize ∧ Text.trim delimiter ≠ []

variable {keywordCase : KeywordCase} {indentKind : IndentKind} {indentSize : Nat}
  {delimiter : Text} {style base : Style} {c : Choices}

theorem make_eq_ok_iff : make keywordCase indentKind indentSize delimiter = .ok style ↔
    Accepts indentSize delimiter ∧ style.keywordCase = keywordCase ∧
      style.indentKind = indentKind ∧ style.indentSize = indentSize ∧
      style.delimiter = Text.trim delimiter := by
  unfold make
  split
  · next hsize => simp [Accepts, hsize]
  · next hsize =>
    split
    · next hblank => simp [Accepts, hblank]
    · next hblank =>
      have haccepts : Accepts indentSize delimiter := ⟨Nat.pos_of_ne_zero hsize, hblank⟩
      constructor
      · rintro h
        obtain rfl := Except.ok.inj h
        exact ⟨haccepts, rfl, rfl, rfl, rfl⟩
      · rintro ⟨-, rfl, rfl, rfl, hdelimiter⟩
        cases style
        simp only at hdelimiter
        subst hdelimiter
        rfl

/-- A style is made from its own settings. -/
theorem make_self (s : Style) :
    make s.keywordCase s.indentKind s.indentSize s.delimiter = .ok s := by
  refine make_eq_ok_iff.mpr ⟨⟨s.indentSize_pos, ?_⟩, rfl, rfl, rfl, s.delimiter_trimmed.symm⟩
  rw [s.delimiter_trimmed]
  exact s.delimiter_nonempty

theorem exists_make_iff : (∃ style, make keywordCase indentKind indentSize delimiter = .ok style) ↔
    Accepts indentSize delimiter := by
  constructor
  · rintro ⟨style, h⟩
    exact (make_eq_ok_iff.mp h).1
  · intro h
    exact ⟨⟨keywordCase, indentKind, indentSize, Text.trim delimiter, h.1,
      Text.trim_trim delimiter, h.2⟩, make_eq_ok_iff.mpr ⟨h, rfl, rfl, rfl, rfl⟩⟩

/-- The chosen settings take the place of those of the style below. -/
theorem overlay_eq_ok_iff : base.overlay c = .ok style ↔
    Accepts (c.indentSize.getD base.indentSize) (c.delimiter.getD base.delimiter) ∧
      style.keywordCase = c.keywordCase.getD base.keywordCase ∧
      style.indentKind = c.indentKind.getD base.indentKind ∧
      style.indentSize = c.indentSize.getD base.indentSize ∧
      style.delimiter = Text.trim (c.delimiter.getD base.delimiter) := make_eq_ok_iff

/-- A style has what it takes: only what is chosen can be refused. -/
theorem exists_overlay_iff (base : Style) (c : Choices) : (∃ style, base.overlay c = .ok style) ↔
    (∀ n ∈ c.indentSize, 0 < n) ∧ ∀ d ∈ c.delimiter, Text.trim d ≠ [] := by
  have hdelimiter : Text.trim base.delimiter ≠ [] := by
    rw [base.delimiter_trimmed]
    exact base.delimiter_nonempty
  have hmake : (∃ style, base.overlay c = .ok style) ↔
      Accepts (c.indentSize.getD base.indentSize) (c.delimiter.getD base.delimiter) :=
    exists_make_iff
  rw [hmake, Accepts]
  cases c.indentSize <;> cases c.delimiter <;> simp [base.indentSize_pos, hdelimiter]

/-- There is no white space at either end of a delimiter. -/
theorem visible_delimiter (s : Style) :
    (∃ c ∈ s.delimiter.head?, Text.isBlank c = false) ∧
      ∃ c ∈ s.delimiter.getLast?, Text.isBlank c = false := by
  have hvisible := Text.visible_trim (s := s.delimiter)
  rw [s.delimiter_trimmed] at hvisible
  exact hvisible s.delimiter_nonempty

end SqlLayout.Style
