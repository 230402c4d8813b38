import Mathlib.Data.List.Forall2
import SqlLayout.Diff

/-!
# The changes are an edit script

A row holds one plan for each tail of the new lines.  The first row has the plans from no old line, and
each old line makes the next row out of the row behind it, so the last row begins with a script from all
old lines to all new ones (`editScript_script`).
-/

namespace SqlLayout.Diff

/-- `EditScript old new cs`: the changes lead from the old lines to the new ones. -/
inductive EditScript : List Text → List Text → List Change → Prop
  | nil : EditScript [] [] []
  | keep {old new : List Text} {cs : List Change} (line : Text) (rest : EditScript old new cs) :
      EditScript (line :: old) (line :: new) (.keep line :: cs)
  | delete {old new : List Text} {cs : List Change} (line : Text) (rest : EditScript old new cs) :
      EditScript (line :: old) new (.delete line :: cs)
  | insert {old new : List Text} {cs : List Change} (line : Text) (rest : EditScript old new cs) :
      EditScript old (line :: new) (.insert line :: cs)

/-- `IsRow old news row`: the plans lead from the old lines to each tail of the new ones. -/
def IsRow (old news : List Text) (row : List Plan) : Prop :=
  List.Forall₂ (fun new p => EditScript old new p.script) news.tails row

variable {old new news : List Text} {row : List Plan} {cs : List Change}

theorem isRow_nil_iff : IsRow old [] row ↔ ∃ p, row = [p] ∧ EditScript old [] p.script := by
  rw [IsRow, List.tails, List.forall₂_cons_left_iff]
  simp only [List.forall₂_nil_left_iff]
  constructor
  · rintro ⟨p, ps, hp, rfl, rfl⟩
    exact ⟨p, rfl, hp⟩
  · rintro ⟨p, rfl, hp⟩
    exact ⟨p, [], hp, rfl, rfl⟩

theorem isRow_cons_iff {line : Text} : IsRow old (line :: news) row ↔
    ∃ p ps, row = p :: ps ∧ EditScript old (line :: news) p.script ∧ IsRow old news ps := by
  rw [IsRow, List.tails, List.forall₂_cons_left_iff]
  constructor
  · rintro ⟨p, ps, hp, hps, rfl⟩
    exact ⟨p, ps, rfl, hp, hps⟩
  · rintro ⟨p, ps, rfl, hp, hps⟩
    exact ⟨p, ps, hp, hps, rfl⟩

/-- A row begins with a plan to all of the new lines. -/
theorem IsRow.exists_head (h : IsRow old news row) :
    ∃ p ps, row = p :: ps ∧ EditScript old news p.script := by
  cases news with
  | nil =>
    obtain ⟨p, rfl, hp⟩ := isRow_nil_iff.mp h
    exact ⟨p, [], rfl, hp⟩
  | cons line news =>
    obtain ⟨p, ps, rfl, hp, -⟩ := isRow_cons_iff.mp h
    exact ⟨p, ps, rfl, hp⟩

theorem isRow_lastRow (news : List Text) : IsRow [] news (lastRow news) := by
  induction news with
  | nil => exact isRow_nil_iff.mpr ⟨_, rfl, .nil⟩
  | cons line news ih =>
    obtain ⟨p, ps, hrow, hp⟩ := ih.exists_head
    rw [lastRow, hrow]
    exact isRow_cons_iff.mpr ⟨_, _, rfl, .insert line hp, hrow ▸ ih⟩

theorem better_cases (p q : Plan) : Plan.better p q = p ∨ Plan.better p q = q := by
  unfold Plan.better
  split
  · exact .inl rfl
  · exact .inr rfl

theorem isRow_nextRow (h : IsRow old news row) (line : Text) :
    IsRow (line :: old) news (nextRow line news row) := by
  induction news generalizing row with
  | nil =>
    obtain ⟨p, rfl, hp⟩ := isRow_nil_iff.mp h
    exact isRow_nil_iff.mpr ⟨_, rfl, .delete line hp⟩
  | cons head news ih =>
    obtain ⟨p, qs, rfl, hp, hqs⟩ := isRow_cons_iff.mp h
    obtain ⟨q, ps, rfl, hq⟩ := hqs.exists_head
    have hnext := ih hqs
    obtain ⟨r, rs, hrow, hr⟩ := hnext.exists_head
    rw [nextRow, hrow]
    refine isRow_cons_iff.mpr ⟨_, _, rfl, ?_, hrow ▸ hnext⟩
    split
    · next hsame =>
      subst hsame
      exact .keep line hq
    · rcases better_cases ⟨p.kept, .delete line :: p.script⟩ ⟨r.kept, .insert head :: r.script⟩ with
        hdelete | hinsert
      · rw [hdelete]
        exact .delete line hp
      · rw [hinsert]
        exact .insert head hr

theorem isRow_foldr (old news : List Text) :
    IsRow old news (old.foldr (fun line row => nextRow line news row) (lastRow news)) := by
  induction old with
  | nil => exact isRow_lastRow news
  | cons line old ih => exact isRow_nextRow ih line

theorem editScript_shortestScript (old new : List Text) :
    EditScript old new (shortestScript old new) := by
  obtain ⟨p, ps, hrow, hp⟩ := (isRow_foldr old new).exists_head
  rw [shortestScript, hrow]
  exact hp

/-! ## Deletions first -/

/-- Insertions held back are still to come. -/
theorem EditScript.insertAll (h : EditScript old new cs) (held : List Text) :
    EditScript old (held ++ new) (held.map .insert ++ cs) := by
  induction held with
  | nil => exact h
  | cons line held ih => exact .insert line ih

theorem EditScript.deletionsFirst (h : EditScript old new cs) (held : List Text) :
    EditScript old (held ++ new) (deletionsFirst (held.map .insert) cs) := by
  induction h generalizing held with
  | nil => simpa [Diff.deletionsFirst] using EditScript.nil.insertAll held
  | keep line _ ih => exact (EditScript.keep line (ih [])).insertAll held
  | delete line _ ih => exact .delete line (ih held)
  | insert line _ ih => simpa [Diff.deletionsFirst] using ih (held ++ [line])

/-- The script between two texts leads from the lines of one to the lines of the other. -/
theorem editScript_script (old new : Text) : EditScript (lines old) (lines new) (script old new) :=
  (editScript_shortestScript (lines old) (lines new)).deletionsFirst []

end SqlLayout.Diff
