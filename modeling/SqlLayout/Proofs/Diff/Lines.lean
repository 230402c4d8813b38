import Mathlib.Data.List.Basic
import SqlLayout.Diff
import SqlLayout.Proofs.Text.Lines

/-!
# The lines that a difference compares

A text is cut behind every line end, which is `\n`, `\r\n` or a `\r` that no `\n` follows.  There is
one way to cut a text (`cut_iff`).  Texts that end a line can be put one behind the other and are cut
one by one (`Cut.append`).
-/

namespace SqlLayout.Diff

/-- Whether a character can end a line. -/
def isLineEnd (c : Char) : Bool := c = '\n' || c = '\r'

/-- The line ends. -/
inductive LineEnd : Text → Prop
  | feed : LineEnd ['\n']
  | carriage : LineEnd ['\r']
  | both : LineEnd ['\r', '\n']

/-- Characters that end no line, and a line end behind them. -/
inductive Line : Text → Prop
  | ended {body mark : Text} (one : ∀ c ∈ body, isLineEnd c = false) (ends : LineEnd mark) :
      Line (body ++ mark)

/-- `Cut s ls`: the text is cut into `ls` behind every line end.  What is left behind the last of them is
a piece, too. -/
inductive Cut : Text → List Text → Prop
  | nothing : Cut [] []
  | rest {piece : Text} (some : piece ≠ []) (one : ∀ c ∈ piece, isLineEnd c = false) : Cut piece [piece]
  | line {body mark s : Text} {ls : List Text} (one : ∀ c ∈ body, isLineEnd c = false)
      (ends : LineEnd mark) (lone : mark = ['\r'] → s.head? ≠ some '\n') (behind : Cut s ls) :
      Cut (body ++ mark ++ s) ((body ++ mark) :: ls)

variable {s t line : Text} {ls ms : List Text}

/-! ## One way to cut -/

theorem lines_mark {mark : Text} (h : LineEnd mark) (lone : mark = ['\r'] → s.head? ≠ some '\n') :
    lines (mark ++ s) = mark :: lines s := by
  cases h with
  | feed => simp [lines]
  | both => rfl
  | carriage =>
    have hnext := lone rfl
    cases s with
    | nil => rfl
    | cons c cs =>
      have hc : c ≠ '\n' := by simpa using hnext
      rw [List.singleton_append, lines]
      · simp
      · rintro ds - hds
        exact hc (List.cons.inj hds).1

/-- A character that ends no line belongs to the piece behind it. -/
theorem lines_cons {c : Char} (hc : isLineEnd c = false) (s : Text) :
    lines (c :: s) = (c :: (lines s).headD []) :: (lines s).tail := by
  have hends : (c = '\n' || c = '\r') = false := hc
  rw [lines]
  · simp only [hends, Bool.false_eq_true, ↓reduceIte]
    cases lines s <;> rfl
  · rintro ds rfl -
    simp at hends

theorem lines_line {body mark : Text} (one : ∀ c ∈ body, isLineEnd c = false) (hmark : LineEnd mark)
    (lone : mark = ['\r'] → s.head? ≠ some '\n') :
    lines (body ++ mark ++ s) = (body ++ mark) :: lines s := by
  induction body with
  | nil => exact lines_mark hmark lone
  | cons c cs ih =>
    have hrest := ih fun x hx => one x (by simp [hx])
    rw [List.cons_append, List.cons_append, lines_cons (one c (by simp)), hrest]
    rfl

theorem lines_rest (hne : s ≠ []) (one : ∀ c ∈ s, isLineEnd c = false) : lines s = [s] := by
  induction s with
  | nil => exact absurd rfl hne
  | cons c cs ih =>
    rw [lines_cons (one c (by simp))]
    cases cs with
    | nil => rfl
    | cons d ds =>
      rw [ih (by simp) fun x hx => one x (by simp [hx])]
      rfl

theorem Cut.lines_eq (h : Cut s ls) : lines s = ls := by
  induction h with
  | nothing => rfl
  | rest hne one => exact lines_rest hne one
  | line one ends lone _ ih => rw [lines_line one ends lone, ih]

theorem Cut.cons {c : Char} (hc : isLineEnd c = false) (h : Cut s ls) :
    Cut (c :: s) ((c :: ls.headD []) :: ls.tail) := by
  cases h with
  | nothing => exact .rest (by simp) (by simp [hc])
  | rest hne one => exact .rest (by simp) (List.forall_mem_cons.mpr ⟨hc, one⟩)
  | line one ends lone behind => exact .line (List.forall_mem_cons.mpr ⟨hc, one⟩) ends lone behind

theorem Cut.mark {mark : Text} (ends : LineEnd mark) (lone : mark = ['\r'] → s.head? ≠ some '\n')
    (behind : Cut s ls) : Cut (mark ++ s) (mark :: ls) := by
  have hnone : ∀ c ∈ ([] : Text), isLineEnd c = false := by simp
  exact .line hnone ends lone behind

theorem cut_lines (s : Text) : Cut s (lines s) := by
  fun_induction lines s with
  | case1 => exact .nothing
  | case2 s ih => exact Cut.mark .both (by simp) ih
  | case3 c s hnext hends ih =>
    have hc : c = '\n' ∨ c = '\r' := by simpa using hends
    rcases hc with rfl | rfl
    · exact Cut.mark .feed (by simp) ih
    · refine Cut.mark .carriage ?_ ih
      rintro - hhead
      obtain ⟨rest, rfl⟩ := List.head?_eq_some_iff.mp hhead
      exact hnext rest rfl rfl
  | case4 c s _ hends heq ih =>
    have hc : isLineEnd c = false := eq_false_of_ne_true hends
    rw [heq] at ih
    exact ih.cons hc
  | case5 c s _ hends l ls heq ih =>
    have hc : isLineEnd c = false := eq_false_of_ne_true hends
    rw [heq] at ih
    exact ih.cons hc

/-- There is one way to cut a text behind its line ends. -/
theorem cut_iff : Cut s ls ↔ lines s = ls :=
  ⟨Cut.lines_eq, fun h => h ▸ cut_lines s⟩

/-! ## Cutting texts one behind the other -/

/-- Whether a text ends in a line end. -/
def EndsLine (s : Text) : Prop := Text.endsWith s '\n' = true ∨ Text.endsWith s '\r' = true

theorem endsLine_append (ht : t ≠ []) (s : Text) : EndsLine (s ++ t) ↔ EndsLine t := by
  rw [EndsLine, EndsLine, Text.endsWith_append ht, Text.endsWith_append ht]

theorem LineEnd.endsLine {mark : Text} (h : LineEnd mark) : EndsLine mark := by
  cases h <;> simp [EndsLine, Text.endsWith]

theorem LineEnd.ne_nil {mark : Text} (h : LineEnd mark) : mark ≠ [] := by
  cases h <;> simp

theorem Line.endsLine (h : Line line) : EndsLine line := by
  cases h with
  | ended one ends => exact (endsLine_append ends.ne_nil _).mpr ends.endsLine

theorem not_endsLine (one : ∀ c ∈ s, isLineEnd c = false) : ¬ EndsLine s := by
  rintro (h | h)
  · have hfeed := one '\n' (Text.mem_of_endsWith h)
    simp [isLineEnd] at hfeed
  · have hreturn := one '\r' (Text.mem_of_endsWith h)
    simp [isLineEnd] at hreturn

/-- Behind a line end another text is cut on its own, unless the two make one line end. -/
theorem Cut.append (hs : Cut s ls) (hends : EndsLine s ∨ s = [])
    (hlone : Text.endsWith s '\r' = true → t.head? ≠ some '\n') (ht : Cut t ms) :
    Cut (s ++ t) (ls ++ ms) := by
  induction hs with
  | nothing => exact ht
  | rest hne one =>
    rcases hends with hends | rfl
    · exact absurd hends (not_endsLine one)
    · exact absurd rfl hne
  | @line body mark s ls one ends lone behind ih =>
    rw [List.append_assoc, List.cons_append]
    by_cases hs : s = []
    · subst hs
      obtain rfl : [] = ls := behind.lines_eq
      refine .line one ends ?_ ht
      rintro rfl
      exact hlone (by simp [Text.endsWith])
    · have hsame : ∀ c, Text.endsWith (body ++ mark ++ s) c = Text.endsWith s c :=
        Text.endsWith_append hs _
      refine .line one ends ?_ (ih ?_ ?_)
      · intro hmark
        rw [List.head?_append_of_ne_nil _ hs]
        exact lone hmark
      · exact .inl ((endsLine_append hs _).mp (hends.resolve_right (by simp [hs])))
      · rw [← hsame]
        exact hlone

/-- Lines that begin with another character than a line feed are cut as they were put together. -/
theorem cut_flatten (h : ∀ l ∈ ls, Line l ∧ l.head? ≠ some '\n') :
    Cut ls.flatten ls := by
  induction ls with
  | nil => exact .nothing
  | cons l ls ih =>
    obtain ⟨⟨hline, -⟩, hrest⟩ := List.forall_mem_cons.mp h
    cases hline with
    | ended one ends =>
      refine .line one ends (fun _ => ?_) (ih hrest)
      cases ls with
      | nil => simp
      | cons m ms =>
        obtain ⟨⟨hm, hhead⟩, -⟩ := List.forall_mem_cons.mp hrest
        have hne : m ≠ [] := by
          rintro rfl
          cases hm.endsLine <;> simp_all [Text.endsWith]
        rwa [List.flatten_cons, List.head?_append_of_ne_nil _ hne]

end SqlLayout.Diff
